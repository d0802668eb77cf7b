import HyperDht.Private.DescriptorStore

/-!
# Every sequence of requests to a storage node

What one request does to the records (`Effect`), what holds of them after any
sequence of requests (`Sound`), and that the store with its objects behaves as
the node of `Plugin`, which keeps the wires only (`shows_onrequest`).
-/

namespace HyperDht.Private

namespace Store

/-! ## One request -/

def removed (s s' : Store) : List Removal := s'.removals.drop s.removals.length

/-- What a request does to what is stored. -/
structure Effect (k : Suite) (call : Arrival) (s s' : Store) : Prop where
  owned : s'.Owned
  few : s.records.size ≤ maxRecords → s'.records.size ≤ maxRecords
  logged : s.removals <+: s'.removals
  intact : ∀ {key : Bytes} {ref : Nat}, s.records.get? key = some ref →
    s'.records.get? key = some ref → s'.heap[ref]? = s.heap[ref]?
  origin : ∀ {key : Bytes} {d : Descriptor}, s'.record key = some d →
    s.record key = some d ∨ Accepts k call d ∧ key = call.target
  kept : ∀ {key : Bytes} {d : Descriptor}, s.record key = some d →
    (∃ r ∈ s.removed s', r.key = key) ∨
      ∃ d', s'.record key = some d' ∧ (d' = d ∨ d.seq < d'.seq)
  expired : ∀ {key : Bytes}, .expired key ∈ s.removed s' →
    ∃ d, s.record key = some d ∧ d.expiresAt ≤ call.readings.prune
  evicted : ∀ {victim : Bytes}, .evicted victim ∈ s.removed s' →
    maxRecords ≤ (s.prune call.readings.prune).records.size ∧
      (s.prune call.readings.prune).record call.target = none ∧
      (∃ d, s'.record call.target = some d ∧ Accepts k call d) ∧
      ∃ old, (s.prune call.readings.prune).record victim = some old ∧
        ∀ key d, (s.prune call.readings.prune).record key = some d → old.expiresAt ≤ d.expiresAt

theorem removed_self (s : Store) : s.removed s = [] := List.drop_length

theorem removed_of_append {s s' : Store} {new : List Removal}
    (h : s'.removals = s.removals ++ new) : s.removed s' = new := by
  unfold removed
  rw [h]
  exact List.drop_left

theorem Effect.refl {k : Suite} {call : Arrival} {s : Store} (ho : s.Owned) : Effect k call s s := by
  refine ⟨ho, id, List.prefix_refl _, fun _ _ => rfl, fun h => .inl h,
    fun h => .inr ⟨_, h, .inl rfl⟩, fun h => ?_, fun h => ?_⟩
  · rw [removed_self] at h
    exact (List.not_mem_nil h).elim
  · rw [removed_self] at h
    exact (List.not_mem_nil h).elim

theorem Stored.record {target : Bytes} {d : Descriptor} {s s' : Store} (h : Stored target d s s')
    (key : Bytes) : s'.record key = if key = target then some d else s.record key := by
  by_cases hk : key = target
  · subst hk
    obtain ⟨ref, hself, hobj, -⟩ := h.self
    rw [if_pos rfl]
    exact record_eq_some.mpr ⟨ref, hself, hobj⟩
  · rw [if_neg hk, Store.record, Store.record, h.other hk]
    cases hr : s.records.get? key with
    | none => rfl
    | some ref => exact h.heap hk hr

/-- A descriptor stored under its target: `Placed` without its cases. -/
theorem Placed.summary {call : Arrival} {d : Descriptor} {s s' : Store} (h : Placed call d s s') :
    ∃ gone s₂, Drops gone s s₂ ∧ Stored call.target d s₂ s' ∧
      s'.removals = s.removals ++ gone.map .evicted ∧
      (s.records.size ≤ maxRecords → s'.records.size ≤ maxRecords) ∧
      (∀ old, s.record call.target = some old → old.seq < d.seq) ∧
      ∀ victim ∈ gone, maxRecords ≤ s.records.size ∧ s.record call.target = none ∧
        ∃ old, s.record victim = some old ∧
          ∀ key d', s.record key = some d' → old.expiresAt ≤ d'.expiresAt := by
  have hfree : s.records.get? call.target = none → s.record call.target = none := by
    intro hn
    rw [Store.record, hn]
    rfl
  cases h with
  | fresh hnone hroom hst hsize =>
    refine ⟨[], s, .refl s, hst, ?_, fun _ => by omega, fun old hold => ?_,
      fun _ hv => (List.not_mem_nil hv).elim⟩
    · rw [hst.removals]
      exact (List.append_nil _).symm
    · rw [hfree hnone] at hold
      cases hold
  | evicting hnone hfull hold hdrops hrem hst hsize hmin =>
    refine ⟨_, _, hdrops, hst, hst.removals.trans hrem, fun h => by omega, fun old hold => ?_,
      fun victim hv => ?_⟩
    · rw [hfree hnone] at hold
      cases hold
    · obtain rfl := List.mem_singleton.mp hv
      exact ⟨hfull, hfree hnone, _, hold, hmin⟩
  | replacing hcur hlt hst hsize =>
    refine ⟨[], s, .refl s, hst, ?_, fun h => by omega, fun old hold => ?_,
      fun _ hv => (List.not_mem_nil hv).elim⟩
    · rw [hst.removals]
      exact (List.append_nil _).symm
    · obtain rfl := Option.some.inj (hcur.symm.trans hold)
      exact hlt

theorem effect_of_pruned {k : Suite} {call : Arrival} {s s' : Store} (ho : s.Owned)
    (hd : Drops [] (s.prune call.readings.prune) s')
    (hr : s'.removals = (s.prune call.readings.prune).removals)
    (hrec : s'.records = (s.prune call.readings.prune).records) : Effect k call s s' := by
  obtain ⟨gone, hp, -⟩ := prune_spec ho call.readings.prune
  have hdrops := hp.drops.trans hd
  rw [List.append_nil] at hdrops
  have hnew : s.removed s' = gone.map .expired := removed_of_append (hr.trans hp.removals)
  refine ⟨hdrops.owned ho, fun h => ?_, ?_, fun _ h => hdrops.heap h, fun {key d} h => ?_,
    fun {key d} h => ?_, fun {key} h => ?_, fun {victim} h => ?_⟩
  · rw [hrec]
    exact le_trans hp.size h
  · rw [hr, hp.removals]
    exact List.prefix_append _ _
  · rw [hdrops.record] at h
    split at h
    · cases h
    · exact .inl h
  · by_cases hk : key ∈ gone
    · exact .inl ⟨.expired key, by rw [hnew]; exact List.mem_map_of_mem hk, rfl⟩
    · refine .inr ⟨d, ?_, .inl rfl⟩
      rw [hdrops.record, if_neg hk, h]
  · rw [hnew] at h
    obtain ⟨key', hk, he⟩ := List.mem_map.mp h
    obtain rfl := Removal.expired.inj he
    exact hp.expired key' hk
  · rw [hnew] at h
    obtain ⟨key', -, he⟩ := List.mem_map.mp h
    cases he

theorem effect_of_placed {k : Suite} {call : Arrival} {s s' : Store} (ho : s.Owned) {d : Descriptor}
    (ha : Accepts k call d) (hpl : Placed call d (s.prune call.readings.prune) s')
    (href : s'.records.get? call.target = some (s.prune call.readings.prune).heap.length) :
    Effect k call s s' := by
  obtain ⟨gone, hp, -⟩ := prune_spec ho call.readings.prune
  have ho₁ := hp.drops.owned ho
  obtain ⟨gone', s₂, hd, hst, hrem, hfew, hseq, hvictims⟩ := hpl.summary
  have hdrops := hp.drops.trans hd
  have ho₂ := hd.owned ho₁
  have hnew : s.removed s' = gone.map .expired ++ gone'.map .evicted := by
    apply removed_of_append
    rw [hrem, hp.removals, List.append_assoc]
  have hrecord := hst.record
  refine ⟨hst.owned ho₂, fun h => hfew (le_trans hp.size h), ?_, fun {key ref} h h' => ?_,
    fun {key d'} h => ?_, fun {key d'} h => ?_, fun {key} h => ?_, fun {victim} h => ?_⟩
  · rw [hrem, hp.removals, List.append_assoc]
    exact List.prefix_append _ _
  · by_cases hk : key = call.target
    · -- the object of the target is a new one
      subst hk
      obtain rfl := Option.some.inj (href.symm.trans h')
      exact absurd (ho.there h) (Nat.not_lt.mpr hp.drops.length)
    · rw [hst.other hk] at h'
      rw [hst.heap hk h', hdrops.heap h']
  · rw [hrecord] at h
    split at h
    · next hk =>
      obtain rfl := Option.some.inj h
      exact .inr ⟨ha, hk⟩
    · rw [hdrops.record] at h
      split at h
      · cases h
      · exact .inl h
  · by_cases hk : key ∈ gone ++ gone'
    · refine .inl ?_
      rw [hnew]
      rcases List.mem_append.mp hk with hk | hk
      · exact ⟨.expired key, List.mem_append_left _ (List.mem_map_of_mem hk), rfl⟩
      · exact ⟨.evicted key, List.mem_append_right _ (List.mem_map_of_mem hk), rfl⟩
    · right
      rw [hrecord]
      by_cases hkt : key = call.target
      · subst hkt
        rw [if_pos rfl]
        refine ⟨d, rfl, .inr (hseq d' ?_)⟩
        rw [hp.drops.record, if_neg fun hm => hk (List.mem_append_left _ hm)]
        exact h
      · rw [if_neg hkt, hdrops.record, if_neg hk]
        exact ⟨d', h, .inl rfl⟩
  · rw [hnew] at h
    rcases List.mem_append.mp h with h | h
    · obtain ⟨key', hk, he⟩ := List.mem_map.mp h
      obtain rfl := Removal.expired.inj he
      exact hp.expired key' hk
    · obtain ⟨key', -, he⟩ := List.mem_map.mp h
      cases he
  · rw [hnew] at h
    rcases List.mem_append.mp h with h | h
    · obtain ⟨key', -, he⟩ := List.mem_map.mp h
      cases he
    · obtain ⟨key', hk, he⟩ := List.mem_map.mp h
      obtain rfl := Removal.evicted.inj he
      obtain ⟨hfull, hfree, hmin⟩ := hvictims key' hk
      refine ⟨hfull, hfree, ⟨d, ?_, ha⟩, hmin⟩
      rw [hrecord, if_pos rfl]

/-- **What one request does.** -/
theorem effect_onrequest {k : Suite} {s : Store} (ho : s.Owned) (call : Arrival) :
    Effect k call s (s.onrequest k call).1 := by
  have hpruned : Effect k call s (s.prune call.readings.prune) :=
    effect_of_pruned ho (.refl _) rfl rfl
  unfold onrequest
  cases hreq : call.request with
  | capability =>
    dsimp only
    split
    · exact .refl ho
    · exact .refl ho
  | lookup value =>
    dsimp only
    split
    · exact .refl ho
    · split
      · exact hpruned
      · exact hpruned
  | get =>
    dsimp only
    split
    · exact .refl ho
    · exact hpruned
  | other =>
    dsimp only
    split
    · exact .refl ho
    · exact hpruned
  | put token value =>
    dsimp only
    split
    · exact .refl ho
    · obtain ⟨gone, hp, -⟩ := prune_spec ho call.readings.prune
      rcases onput_cases (k := k) (hp.drops.owned ho) hreq (Prod.mk.eta).symm with
        ⟨hd, hr, hrec⟩ | ⟨d, ha, hpl, href⟩
      · exact effect_of_pruned ho hd hr hrec
      · exact effect_of_placed ho ha hpl href

/-! ## Every sequence of requests -/

/-- What holds after the requests `calls`. -/
structure Sound (k : Suite) (calls : List Arrival) (s : Store) : Prop where
  owned : s.Owned
  few : s.records.size ≤ maxRecords
  passed : ∀ {key : Bytes} {d : Descriptor}, s.record key = some d →
    ∃ call ∈ calls, Accepts k call d ∧ call.target = key

theorem sound_new (k : Suite) (relayPublicKey : Option Bytes) : (new relayPublicKey).Sound k [] := by
  refine ⟨⟨fun h => ?_, fun h => ?_⟩, Nat.zero_le _, fun h => ?_⟩
  · cases h
  · cases h
  · cases h

theorem Sound.step {k : Suite} {calls : List Arrival} {s : Store} (h : s.Sound k calls) (call : Arrival) :
    (s.onrequest k call).1.Sound k (calls ++ [call]) := by
  have he := effect_onrequest (k := k) h.owned call
  refine ⟨he.owned, he.few h.few, fun {key d} hd => ?_⟩
  rcases he.origin hd with hd | ⟨ha, rfl⟩
  · obtain ⟨earlier, hmem, hrest⟩ := h.passed hd
    exact ⟨earlier, List.mem_append_left _ hmem, hrest⟩
  · exact ⟨call, List.mem_append_right _ List.mem_cons_self, ha, rfl⟩

theorem Sound.run {k : Suite} {calls : List Arrival} {s : Store} (h : s.Sound k calls)
    (more : List Arrival) : (s.run k more).Sound k (calls ++ more) := by
  induction more generalizing calls s with
  | nil => exact (List.append_nil calls).symm ▸ h
  | cons call more ih =>
    have hrun := ih (h.step call)
    rw [List.append_assoc] at hrun
    exact hrun

theorem sound_run (k : Suite) (relayPublicKey : Option Bytes) (calls : List Arrival) :
    ((new relayPublicKey).run k calls).Sound k calls :=
  (sound_new k relayPublicKey).run calls

theorem removals_run {k : Suite} {s : Store} (ho : s.Owned) (calls : List Arrival) :
    s.removals <+: (s.run k calls).removals ∧ (s.run k calls).Owned := by
  induction calls generalizing s with
  | nil => exact ⟨List.prefix_refl _, ho⟩
  | cons call calls ih =>
    have he := effect_onrequest (k := k) ho call
    obtain ⟨hpre, ho'⟩ := ih he.owned
    exact ⟨he.logged.trans hpre, ho'⟩

/-- As long as a key is not removed its sequence number only rises, and its record changes
only when it does. -/
theorem kept_run {k : Suite} {key : Bytes} {d : Descriptor} {s : Store} (ho : s.Owned)
    (hd : s.record key = some d) {calls : List Arrival}
    (hkept : ∀ r ∈ s.removed (s.run k calls), r.key ≠ key) :
    ∃ d', (s.run k calls).record key = some d' ∧ (d' = d ∨ d.seq < d'.seq) := by
  induction calls generalizing s d with
  | nil => exact ⟨d, hd, .inl rfl⟩
  | cons call calls ih =>
    have he := effect_onrequest (k := k) ho call
    obtain ⟨new, hnew⟩ := he.logged
    obtain ⟨rest, hrest⟩ := (removals_run (k := k) he.owned calls).1
    have hall : s.removed (s.run k (call :: calls)) = new ++ rest := by
      apply removed_of_append
      rw [← List.append_assoc, hnew]
      exact hrest.symm
    rw [hall] at hkept
    rcases he.kept hd with ⟨r, hr, hkey⟩ | ⟨d₁, hd₁, hle⟩
    · rw [removed_of_append hnew.symm] at hr
      exact absurd hkey (hkept r (List.mem_append_left _ hr))
    · obtain ⟨d', hd', hle'⟩ := ih he.owned hd₁ fun r hr => hkept r (List.mem_append_right _ (by
        rw [removed_of_append hrest.symm] at hr
        exact hr))
      refine ⟨d', hd', ?_⟩
      rcases hle with rfl | hlt
      · exact hle'
      · rcases hle' with rfl | hlt'
        · exact .inr hlt
        · exact .inr (lt_trans hlt hlt')

/-- A node serves what is stored under the target and has not expired. -/
theorem served {k : Suite} {s : Store} (ho : s.Owned) {call : Arrival} {wire : Bytes}
    (h : (s.onrequest k call).2 = .record (some wire) ∨
      (s.onrequest k call).2 = .routed (some wire)) :
    ∃ d, s.record call.target = some d ∧ d.wire = wire ∧ call.readings.prune < d.expiresAt := by
  obtain ⟨gone, hp, hall⟩ := prune_spec ho call.readings.prune
  have hread : ∀ {wire : Bytes}, (s.prune call.readings.prune).wireOf call.target = some wire →
      ∃ d, s.record call.target = some d ∧ d.wire = wire ∧ call.readings.prune < d.expiresAt := by
    intro wire hw
    obtain ⟨d, hd, rfl⟩ := Option.map_eq_some_iff.mp hw
    rw [hp.drops.record] at hd
    split at hd
    · cases hd
    · next hk => exact ⟨d, hd, rfl, by_contra fun hexp => hk (hall _ d hd (by omega))⟩
  have hput : ∀ (s₁ : Store) (token : Bool) (value : Option Bytes),
      (s₁.onput k call.readings call.target token value).2 = .silent ∨
        (s₁.onput k call.readings call.target token value).2 = .acknowledged := by
    intro s₁ token value
    unfold onput
    dsimp only
    repeat' split
    all_goals first | exact .inl rfl | exact .inr rfl
  unfold onrequest at h
  cases hreq : call.request with
  | capability =>
    rw [hreq] at h
    dsimp only at h
    split at h
    · rcases h with h | h <;> cases h
    · dsimp only at h
      split at h
      · rcases h with h | h <;> cases h
      · rcases h with h | h <;> cases h
  | lookup value =>
    rw [hreq] at h
    dsimp only at h
    split at h
    · rcases h with h | h <;> cases h
    · split at h
      · dsimp only at h
        split at h
        · rcases h with h | h <;> cases h
        · rcases h with h | h
          · cases h
          · exact hread (Answer.routed.inj h)
      · rcases h with h | h <;> cases h
  | get =>
    rw [hreq] at h
    dsimp only at h
    split at h
    · rcases h with h | h <;> cases h
    · rcases h with h | h
      · exact hread (Answer.record.inj h)
      · cases h
  | other =>
    rw [hreq] at h
    dsimp only at h
    split at h
    · rcases h with h | h <;> cases h
    · rcases h with h | h <;> cases h
  | put token value =>
    rw [hreq] at h
    dsimp only at h
    split at h
    · rcases h with h | h <;> cases h
    · rcases hput (s.prune call.readings.prune) token value with hs | hs
      · rw [hs] at h
        rcases h with h | h <;> cases h
      · rw [hs] at h
        rcases h with h | h <;> cases h

/-- **The store over every sequence of requests.** Each record is the intact decoding of a
wire that passed the checks of a PUT for the hash of its blinded key, and there are at most
`maxRecords`. Until a key expires or is evicted its sequence number never falls, and two
wires under it differ in that number. A request serves no expired record; it removes
records that have expired, and evicts one that expires first to store a new key in a full
store; no object that stays stored changes. -/
theorem store_sound (k : Suite) (relayPublicKey : Option Bytes) (calls : List Arrival) :
    let s := (new relayPublicKey).run k calls
    s.records.size ≤ maxRecords ∧
      (∀ key ref, s.records.get? key = some ref → ∃ d, s.heap[ref]? = some d ∧
        d = fieldsOf d.wire ∧ k.hash d.blindedPublicKey = key ∧ ∃ call ∈ calls, Accepts k call d) ∧
      (∀ (more : List Arrival) (key : Bytes) (d : Descriptor), s.record key = some d →
        (∀ r ∈ s.removed (s.run k more), r.key ≠ key) →
        ∃ d', (s.run k more).record key = some d' ∧ d.seq ≤ d'.seq ∧
          (d'.seq = d.seq → d'.wire = d.wire)) ∧
      ∀ call : Arrival, let s' := (s.onrequest k call).1
        let pruned := s.prune call.readings.prune
        (∀ wire, (s.onrequest k call).2 = .record (some wire) ∨
            (s.onrequest k call).2 = .routed (some wire) →
          ∃ d, s.record call.target = some d ∧ d.wire = wire ∧
            call.readings.prune < d.expiresAt) ∧
        (∀ key d, s.record key = some d → s'.record key = none →
          ∃ r ∈ s.removed s', r.key = key) ∧
        (∀ key, .expired key ∈ s.removed s' →
          ∃ d, s.record key = some d ∧ d.expiresAt ≤ call.readings.prune) ∧
        (∀ victim, .evicted victim ∈ s.removed s' →
          maxRecords ≤ pruned.records.size ∧ pruned.record call.target = none ∧
            (∃ d, s'.record call.target = some d ∧ Accepts k call d) ∧
            ∃ old, pruned.record victim = some old ∧
              ∀ key d, pruned.record key = some d → old.expiresAt ≤ d.expiresAt) ∧
        ∀ key ref, s.records.get? key = some ref → s'.records.get? key = some ref →
          s'.heap[ref]? = s.heap[ref]? := by
  intro s
  have hs := sound_run k relayPublicKey calls
  refine ⟨hs.few, fun key ref hr => ?_, fun more key d hd hkept => ?_, fun call => ?_⟩
  · obtain ⟨d, hobj, hd⟩ := hs.owned.exists hr
    obtain ⟨call, hmem, ha, htarget⟩ := hs.passed hd
    have hpassed := ha
    obtain ⟨wire, -, hdec, hhash⟩ := hpassed
    obtain rfl := decodeDescriptor_eq hdec
    exact ⟨_, hobj, rfl, hhash.trans htarget, call, hmem, ha⟩
  · obtain ⟨d', hd', hle⟩ := kept_run hs.owned hd hkept
    refine ⟨d', hd', ?_, fun hseq => ?_⟩
    · rcases hle with rfl | hlt
      · exact le_rfl
      · exact hlt.le
    · rcases hle with rfl | hlt
      · rfl
      · omega
  · have he := effect_onrequest (k := k) hs.owned call
    refine ⟨fun wire h => served hs.owned h, fun key d hd hn => ?_, fun key => he.expired,
      fun victim => he.evicted, fun key ref => he.intact⟩
    rcases he.kept hd with hr | ⟨d', hd', -⟩
    · exact hr
    · exact absurd (hd'.symm.trans hn) (Option.some_ne_none d')

/-! ## The same node with the wires alone -/

def wireAt (heap : List Descriptor) (ref : Nat) : Bytes := ((heap[ref]?).map Descriptor.wire).getD []

/-- The node as `Plugin` has it. -/
def view (s : Store) : Plugin := ⟨s.relayPublicKey, s.records.mapValues (wireAt s.heap)⟩

/-- The stored objects are the decodings of their wires. -/
def Intact (s : Store) : Prop := ∀ key d, s.record key = some d → d = fieldsOf d.wire

theorem Sound.intact {k : Suite} {calls : List Arrival} {s : Store} (h : s.Sound k calls) : s.Intact := by
  intro key d hd
  obtain ⟨call, -, ⟨wire, -, hdec, -⟩, -⟩ := h.passed hd
  obtain rfl := decodeDescriptor_eq hdec
  rfl

theorem wireAt_of_some {heap : List Descriptor} {ref : Nat} {d : Descriptor}
    (h : heap[ref]? = some d) : wireAt heap ref = d.wire := by
  rw [wireAt, h]
  rfl

theorem get?_view {s : Store} (ho : s.Owned) (key : Bytes) :
    s.view.records.get? key = s.wireOf key := by
  show (s.records.mapValues (wireAt s.heap)).get? key = _
  rw [JsMap.get?_mapValues, wireOf, record]
  cases hr : s.records.get? key with
  | none => rfl
  | some ref =>
    obtain ⟨d, hd, -⟩ := ho.exists hr
    rw [Option.map_some, Option.bind_some, hd, wireAt_of_some hd]
    rfl

/-- The records of two states that agree on the stored objects show the same. -/
theorem view_of_drops {s s' : Store} {gone : List Bytes} (h : Drops gone s s') :
    s'.view.records = s'.records.mapValues (wireAt s.heap) := by
  refine JsMap.mapValues_congr fun key ref hr => ?_
  rw [wireAt, wireAt, h.heap hr]

theorem expiresAt_modify_clear (heap : List Descriptor) (i j : Nat) :
    ((heap.modify i Descriptor.clear)[j]?).map Descriptor.expiresAt =
      (heap[j]?).map Descriptor.expiresAt := by
  rw [List.getElem?_modify]
  cases heap[j]? with
  | none => rfl
  | some d =>
    by_cases h : i = j
    · simp [h, Descriptor.clear]
    · simp [h]

theorem prune_foldl_view (now : Nat) (heap : List Descriptor) : ∀ (es : List (Bytes × Nat)) (s : Store),
    (∀ e ∈ es, (s.heap[e.2]?).map Descriptor.expiresAt =
      some (fieldsOf (wireAt heap e.2)).expiresAt) →
    ((es.foldl (pruneEntry now) s).records).mapValues (wireAt heap) =
      es.foldl (fun records e =>
          if now < (fieldsOf (wireAt heap e.2)).expiresAt then records else records.delete e.1)
        (s.records.mapValues (wireAt heap)) := by
  intro es
  induction es with
  | nil => exact fun _ _ => rfl
  | cons e es ih =>
    intro s hes
    have hrest : ∀ f ∈ es, (s.heap[f.2]?).map Descriptor.expiresAt =
        some (fieldsOf (wireAt heap f.2)).expiresAt := fun f hf => hes f (List.mem_cons_of_mem e hf)
    obtain ⟨d, hd, hexp⟩ := Option.map_eq_some_iff.mp (hes e List.mem_cons_self)
    rw [List.foldl_cons, List.foldl_cons]
    have hentry : pruneEntry now s e =
        if now < d.expiresAt then s else s.remove e.1 e.2 (.expired e.1) := by
      unfold pruneEntry
      rw [hd]
    rw [hentry, ← hexp]
    by_cases hlt : now < d.expiresAt
    · rw [if_pos hlt, if_pos hlt]
      exact ih s hrest
    · rw [if_neg hlt, if_neg hlt, ih]
      · rw [← JsMap.mapValues_delete]
        rfl
      · intro f hf
        rw [← hrest f hf]
        exact expiresAt_modify_clear s.heap e.2 f.2

theorem relay_prune_foldl (now : Nat) (es : List (Bytes × Nat)) (s : Store) :
    (es.foldl (pruneEntry now) s).relayPublicKey = s.relayPublicKey := by
  induction es generalizing s with
  | nil => rfl
  | cons e es ih =>
    rw [List.foldl_cons, ih]
    unfold pruneEntry
    split
    · rfl
    · split
      · rfl
      · rfl

theorem view_prune {s : Store} (ho : s.Owned) (hi : s.Intact) (now : Nat) :
    (s.prune now).view = s.view.prune now := by
  obtain ⟨gone, hp, -⟩ := prune_spec ho now
  have hrecords : (s.prune now).view.records = (s.view.prune now).records := by
    rw [view_of_drops hp.drops]
    unfold prune Plugin.prune
    rw [prune_foldl_view now s.heap s.records.entries s]
    · show _ = (s.records.entries.map fun e => (e.1, wireAt s.heap e.2)).foldl _ _
      rw [List.foldl_map]
      rfl
    · intro e he
      have hr : s.records.get? e.1 = some e.2 := JsMap.mem_entries.mp he
      obtain ⟨d, hd, hrec⟩ := ho.exists hr
      rw [hd, wireAt_of_some hd, Option.map_some, ← hi e.1 d hrec]
  have hrelay : (s.prune now).view.relayPublicKey = (s.view.prune now).relayPublicKey :=
    relay_prune_foldl now _ s
  cases hv : (s.prune now).view with
  | mk relay records =>
    cases hw : s.view.prune now with
    | mk relay' records' =>
      rw [hv, hw] at hrecords hrelay
      exact congrArg₂ Plugin.mk hrelay hrecords

theorem Intact.drops {s s' : Store} {gone : List Bytes} (hi : s.Intact) (h : Drops gone s s') :
    s'.Intact := by
  intro key d hd
  rw [h.record] at hd
  split at hd
  · cases hd
  · exact hi key d hd

/-- The loop of `_evictOldest` on the objects and the one on the wires. -/
theorem oldest_foldl_view {heap : List Descriptor} : ∀ (es : List (Bytes × Nat))
    (best : Option ((Bytes × Nat) × Nat)),
    (∀ e ∈ es, ∃ d, heap[e.2]? = some d ∧ d = fieldsOf d.wire) →
    (es.foldl (olderOf heap) best).map (fun b => (b.1.1, b.2)) =
      es.foldl (fun oldest e =>
        match oldest with
        | none => some (e.1, (fieldsOf (wireAt heap e.2)).expiresAt)
        | some (_, expiry) =>
          if (fieldsOf (wireAt heap e.2)).expiresAt < expiry then
            some (e.1, (fieldsOf (wireAt heap e.2)).expiresAt)
          else oldest) (best.map fun b => (b.1.1, b.2)) := by
  intro es
  induction es with
  | nil => exact fun _ _ => rfl
  | cons e es ih =>
    intro best hes
    obtain ⟨d, hd, hfields⟩ := hes e List.mem_cons_self
    have hexp : (fieldsOf (wireAt heap e.2)).expiresAt = d.expiresAt := by
      rw [wireAt_of_some hd, ← hfields]
    rw [List.foldl_cons, List.foldl_cons, ih _ fun f hf => hes f (List.mem_cons_of_mem e hf), hexp]
    congr 1
    unfold olderOf
    rw [hd]
    cases best with
    | none => rfl
    | some b =>
      dsimp only [Option.map_some]
      by_cases hlt : d.expiresAt < b.2
      · rw [if_pos hlt, if_pos hlt]
        rfl
      · rw [if_neg hlt, if_neg hlt]
        rfl

theorem view_evictOldest {s : Store} (ho : s.Owned) (hi : s.Intact) (hne : s.records.size ≠ 0) :
    s.evictOldest.view = s.view.evictOldest := by
  obtain ⟨victim, ref, old, hr, -, he, -⟩ := evictOldest_spec ho hne
  have hentries : ∀ e ∈ s.records.entries, ∃ d, s.heap[e.2]? = some d ∧ d = fieldsOf d.wire := by
    intro e hmem
    obtain ⟨d, hd, hrec⟩ := ho.exists (JsMap.mem_entries.mp hmem)
    exact ⟨d, hd, hi e.1 d hrec⟩
  have hfold := oldest_foldl_view s.records.entries none hentries
  have hpick : Plugin.oldest s.view.records.entries =
      (s.records.entries.foldl (olderOf s.heap) none).map fun b => (b.1.1, b.2) := by
    rw [hfold]
    exact List.foldl_map
  have hview : s.evictOldest.view = { s.view with records := s.view.records.delete victim } := by
    have hd := drops_remove ho hr (.evicted victim)
    rw [he]
    refine congrArg (Plugin.mk s.relayPublicKey) ?_
    show _ = (s.records.mapValues (wireAt s.heap)).delete victim
    rw [← JsMap.mapValues_delete]
    exact view_of_drops hd
  have hkey : ∃ expiry, Plugin.oldest s.view.records.entries = some (victim, expiry) := by
    rw [hpick]
    unfold evictOldest at he
    cases hbest : s.records.entries.foldl (olderOf s.heap) none with
    | none =>
      rw [hbest] at he
      have hlen := congrArg (fun s => s.removals.length) he
      simp [remove, wipe] at hlen
    | some b =>
      rw [hbest] at he
      have hrem := congrArg Store.removals he
      have hlast : b.1.1 = victim := by
        have := List.append_cancel_left hrem
        exact Removal.evicted.inj (List.singleton_inj.mp this)
      exact ⟨b.2, by rw [Option.map_some, hlast]⟩
  obtain ⟨expiry, hexp⟩ := hkey
  rw [hview, Plugin.evictOldest, hexp]

/-- A stored object shows its wire, in a place of its own. -/
theorem view_set {s : Store} {target : Bytes} {ref : Nat} {d : Descriptor}
    (hd : s.heap[ref]? = some d) : view { s with records := s.records.set target ref } =
      { s.view with records := s.view.records.set target d.wire } := by
  refine congrArg (Plugin.mk s.relayPublicKey) ?_
  show (s.records.set target ref).mapValues (wireAt s.heap) = _
  rw [JsMap.mapValues_set, wireAt_of_some hd]
  rfl

theorem view_drops_nil {s s' : Store} (h : Drops [] s s') (hrec : s'.records = s.records) :
    s'.view = s.view := by
  have hv := view_of_drops h
  rw [hrec] at hv
  exact congrArg₂ Plugin.mk h.relay hv

theorem view_new {s : Store} (ho : s.Owned) (hi : s.Intact) (d : Descriptor) (target : Bytes)
    {p : Plugin} {s₁ s₂ : Store}
    (hp : p = if maxRecords ≤ s.view.records.size then s.view.evictOldest else s.view)
    (h₁ : s₁ = { s with heap := s.heap ++ [d] })
    (h₂ : s₂ = if maxRecords ≤ s₁.records.size then s₁.evictOldest else s₁) :
    { p with records := p.records.set target d.wire } =
      view { s₂ with records := s₂.records.set target s.heap.length } := by
  have halloc : Drops [] s s₁ := h₁ ▸ drops_alloc ho d
  have hrecords : s₁.records = s.records := by rw [h₁]
  have hview : s₁.view = s.view := view_drops_nil halloc hrecords
  have hd : s₁.heap[s.heap.length]? = some d := by
    rw [h₁]
    exact List.getElem?_concat_length
  have hsize : s.view.records.size = s₁.records.size := by
    rw [hrecords]
    exact JsMap.size_mapValues _ _
  rw [hsize] at hp
  by_cases hfull : maxRecords ≤ s₁.records.size
  · rw [if_pos hfull] at hp h₂
    have hne : s₁.records.size ≠ 0 := by
      have : maxRecords = 256 := rfl
      omega
    have hobj : s₂.heap[s.heap.length]? = some d := by
      rw [h₂, getElem?_evictOldest (halloc.owned ho) hne, hd]
      intro key hr
      rw [hrecords] at hr
      exact absurd (ho.there hr) (lt_irrefl _)
    rw [view_set hobj, h₂, view_evictOldest (halloc.owned ho) (hi.drops halloc) hne, hview, hp]
  · rw [if_neg hfull] at hp h₂
    rw [h₂, view_set hd, hview, hp]

theorem view_over {s : Store} (ho : s.Owned) {target : Bytes} (d : Descriptor) {held : Nat}
    (hget : s.records.get? target = some held) :
    view { ({ s with heap := s.heap ++ [d] }.wipe held) with
      records := s.records.set target s.heap.length } =
      { s.view with records := s.view.records.set target d.wire } := by
  have hst := stored_over ho d hget
  obtain ⟨ref, hself, hobj, -⟩ := hst.self
  obtain rfl : s.heap.length = ref :=
    Option.some.inj ((JsMap.get?_set_self s.records target s.heap.length).symm.trans hself)
  refine congrArg (Plugin.mk s.relayPublicKey) ?_
  show (s.records.set target s.heap.length).mapValues (wireAt _) = _
  rw [JsMap.mapValues_set, wireAt_of_some hobj]
  refine JsMap.mapValues_set_congr target d.wire fun key ref hk hr => ?_
  rw [wireAt, wireAt, hst.heap hk hr]

theorem view_onput {k : Suite} {s : Store} (ho : s.Owned) (hi : s.Intact) (now : Nat)
    (target : Bytes) (token : Bool) (value : Option Bytes) :
    s.view.onput k now target token value =
      ((s.onput k ⟨now, now, now⟩ target token value).1.view,
        (s.onput k ⟨now, now, now⟩ target token value).2) := by
  unfold Plugin.onput onput
  cases token with
  | false => rfl
  | true =>
    cases value with
    | none => rfl
    | some wire =>
      dsimp only
      cases hdec : decodeDescriptor k ⟨now, some (periodOf now), none⟩ wire with
      | error e => rfl
      | ok d =>
        have hdiscard := view_drops_nil (drops_discard ho d) rfl
        dsimp only
        by_cases hhash : k.hash d.blindedPublicKey ≠ target
        · rw [if_pos hhash, if_pos hhash, hdiscard]
        · rw [if_neg hhash, if_neg hhash, get?_view ho]
          cases hget : s.records.get? target with
          | none =>
            have hwire : s.wireOf target = none := by
              rw [wireOf, record, hget]
              rfl
            rw [hwire]
            dsimp only
            exact congrArg₂ Prod.mk (view_new ho hi d target rfl rfl rfl) rfl
          | some held =>
            obtain ⟨current, hcur, hrec⟩ := ho.exists hget
            have hwire : s.wireOf target = some current.wire := by
              rw [wireOf, hrec]
              rfl
            have hcur' : (s.heap ++ [d])[held]? = some current :=
              (List.getElem?_append_left (ho.there hget)).trans hcur
            rw [hwire]
            dsimp only
            rw [hcur']
            dsimp only
            rw [← hi target current hrec]
            by_cases hother : d.seq = current.seq ∧ d.wire ≠ current.wire
            · rw [if_pos hother, if_pos hother, hdiscard]
            · rw [if_neg hother, if_neg hother]
              by_cases hlt : current.seq < d.seq
              · rw [if_pos hlt, if_pos hlt, view_over ho d hget]
              · rw [if_neg hlt, if_neg hlt, hdiscard]

/-- **The store behaves as the node with the wires alone.** -/
theorem view_onrequest {k : Suite} {s : Store} (ho : s.Owned) (hi : s.Intact) (now : Nat)
    (target : Bytes) (request : Request) :
    s.view.onrequest k now target request =
      ((s.onrequest k ⟨⟨now, now, now⟩, target, request⟩).1.view,
        (s.onrequest k ⟨⟨now, now, now⟩, target, request⟩).2) := by
  have hview := view_prune ho hi now
  obtain ⟨gone, hp, -⟩ := prune_spec ho now
  have ho' := hp.drops.owned ho
  have hi' := hi.drops hp.drops
  unfold Plugin.onrequest onrequest
  cases request with
  | capability =>
    dsimp only
    have hrelay : s.view.relayPublicKey = s.relayPublicKey := rfl
    rw [hrelay]
    cases s.relayPublicKey with
    | none => rfl
    | some publicKey => rfl
  | lookup value =>
    dsimp only
    split
    · rfl
    · rw [← hview, get?_view ho']
      rcases value with _ | _ | ⟨flag, _ | ⟨flag', value⟩⟩
      · rfl
      · rfl
      · rfl
      · rfl
  | get =>
    dsimp only
    split
    · rfl
    · rw [← hview, get?_view ho']
  | other =>
    dsimp only
    split
    · rfl
    · rw [hview]
  | put token value =>
    dsimp only
    split
    · rfl
    · rw [← hview, view_onput ho' hi']

end Store

end HyperDht.Private
