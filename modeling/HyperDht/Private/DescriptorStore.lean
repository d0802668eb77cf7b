import HyperDht.Private.DescriptorPut

/-!
# The records of a storage node

`DescriptorPlugin` keeps decoded descriptors and zeroes the buffers of those it
drops, and of those it does not keep. Here a record is an object on a heap, so
that wiping one can be told from wiping another; `Plugin` is the same component
with the wires alone (`view_onrequest`). `removals` logs which keys expired or were
evicted.

A request removes some keys, each with the object of its own (`Drops`), and a
PUT stores its descriptor under the target it hashes to, in an empty place or over
a lower sequence number. `store_sound` puts this together over every sequence of
requests.
-/

namespace HyperDht.Private

/-! ## The store -/

/-- What the clock shows in the three places of `onrequest` that read it. -/
structure Readings where
  prune : Nat
  decode : Nat
  period : Nat
  deriving DecidableEq, Repr

structure Arrival where
  readings : Readings
  target : Bytes
  request : Request
  deriving DecidableEq, Repr

/-- Why a key left the map. -/
inductive Removal where
  | expired (key : Bytes)
  | evicted (key : Bytes)
  deriving DecidableEq, Repr

def Removal.key : Removal → Bytes
  | expired key => key
  | evicted key => key

/-- The state of `DescriptorPlugin` with its records as references to descriptors. -/
structure Store where
  relayPublicKey : Option Bytes
  heap : List Descriptor
  records : JsMap Bytes Nat
  removals : List Removal

namespace Store

def new (relayPublicKey : Option Bytes) : Store := ⟨relayPublicKey, [], .empty, []⟩

def record (s : Store) (key : Bytes) : Option Descriptor :=
  (s.records.get? key).bind fun ref => s.heap[ref]?

def wipe (s : Store) (ref : Nat) : Store := { s with heap := s.heap.modify ref Descriptor.clear }

def remove (s : Store) (key : Bytes) (ref : Nat) (why : Removal) : Store :=
  { s with records := s.records.delete key, removals := s.removals ++ [why] }.wipe ref

/-- The body of the loop of `_prune`. -/
def pruneEntry (now : Nat) (s : Store) (e : Bytes × Nat) : Store :=
  match s.heap[e.2]? with
  | none => s
  | some record => if now < record.expiresAt then s else s.remove e.1 e.2 (.expired e.1)

def prune (s : Store) (now : Nat) : Store := s.records.entries.foldl (pruneEntry now) s

/-- The body of the loop of `_evictOldest`. -/
def olderOf (heap : List Descriptor) (oldest : Option ((Bytes × Nat) × Nat)) (e : Bytes × Nat) :
    Option ((Bytes × Nat) × Nat) :=
  match heap[e.2]? with
  | none => oldest
  | some record =>
    match oldest with
    | none => some (e, record.expiresAt)
    | some (_, expiry) => if record.expiresAt < expiry then some (e, record.expiresAt) else oldest

def evictOldest (s : Store) : Store :=
  match s.records.entries.foldl (olderOf s.heap) none with
  | none => s
  | some ((key, ref), _) => s.remove key ref (.evicted key)

/-- The `PUT` branch of `onrequest`, after `_prune`. The `finally` block wipes a descriptor
that is not retained. -/
def onput (k : Suite) (s : Store) (now : Readings) (target : Bytes) (token : Bool)
    (value : Option Bytes) : Store × Answer :=
  match token, value with
  | true, some wire =>
    match decodeDescriptor k ⟨now.decode, some (periodOf now.period), none⟩ wire with
    | .error _ => (s, .silent)
    | .ok descriptor =>
      let ref := s.heap.length
      let s := { s with heap := s.heap ++ [descriptor] }
      if k.hash descriptor.blindedPublicKey ≠ target then (s.wipe ref, .silent)
      else
        match s.records.get? target with
        | none =>
          let s := if maxRecords ≤ s.records.size then s.evictOldest else s
          ({ s with records := s.records.set target ref }, .acknowledged)
        | some held =>
          match s.heap[held]? with
          | none => (s.wipe ref, .silent)
          | some current =>
            if descriptor.seq = current.seq ∧ descriptor.wire ≠ current.wire then
              (s.wipe ref, .silent)
            else if current.seq < descriptor.seq then
              ({ s.wipe held with records := s.records.set target ref }, .acknowledged)
            else (s.wipe ref, .acknowledged)
  | _, _ => (s, .silent)

/-- The wire that is read for a target. -/
def wireOf (s : Store) (target : Bytes) : Option Bytes := (s.record target).map Descriptor.wire

def onrequest (k : Suite) (s : Store) (call : Arrival) : Store × Answer :=
  match call.request with
  | .capability =>
    match s.relayPublicKey with
    | none => (s, .silent)
    | some publicKey => (s, if call.target ∈ relayTargets k then .relay publicKey else .silent)
  | request =>
    if call.target.length ≠ 32 then (s, .silent)
    else
      let s := s.prune call.readings.prune
      match request with
      | .lookup value =>
        match value with
        | some [flag] => (s, if 1 < flag.toNat then .silent else .routed (s.wireOf call.target))
        | _ => (s, .silent)
      | .get => (s, .record (s.wireOf call.target))
      | .put token value => s.onput k call.readings call.target token value
      | _ => (s, .silent)

def run (k : Suite) (s : Store) (calls : List Arrival) : Store :=
  calls.foldl (fun s call => (s.onrequest k call).1) s

/-! ## Keys and their objects -/

/-- Every key has an object of its own. -/
structure Owned (s : Store) : Prop where
  there : ∀ {key : Bytes} {ref : Nat}, s.records.get? key = some ref → ref < s.heap.length
  own : ∀ {key key' : Bytes} {ref : Nat}, s.records.get? key = some ref →
    s.records.get? key' = some ref → key = key'

theorem Owned.exists {s : Store} (h : s.Owned) {key : Bytes} {ref : Nat}
    (hr : s.records.get? key = some ref) : ∃ d, s.heap[ref]? = some d ∧ s.record key = some d := by
  refine ⟨_, List.getElem?_eq_getElem (h.there hr), ?_⟩
  rw [record, hr]
  exact List.getElem?_eq_getElem (h.there hr)

theorem record_eq_some {s : Store} {key : Bytes} {d : Descriptor} :
    s.record key = some d ↔ ∃ ref, s.records.get? key = some ref ∧ s.heap[ref]? = some d :=
  Option.bind_eq_some_iff

/-- From `s` to `s'` the keys `gone` were removed, and of what is still stored nothing else
happened. -/
structure Drops (gone : List Bytes) (s s' : Store) : Prop where
  relay : s'.relayPublicKey = s.relayPublicKey
  length : s.heap.length ≤ s'.heap.length
  get? : ∀ key, s'.records.get? key = if key ∈ gone then none else s.records.get? key
  heap : ∀ {key : Bytes} {ref : Nat}, s'.records.get? key = some ref → s'.heap[ref]? = s.heap[ref]?

namespace Drops

variable {gone gone' : List Bytes} {s s' s'' : Store}

theorem refl (s : Store) : Drops [] s s := ⟨rfl, le_rfl, fun _ => rfl, fun _ => rfl⟩

theorem kept (h : Drops gone s s') {key : Bytes} {ref : Nat} (hr : s'.records.get? key = some ref) :
    key ∉ gone ∧ s.records.get? key = some ref := by
  rw [h.get?] at hr
  split at hr
  · cases hr
  · next hk => exact ⟨hk, hr⟩

theorem trans (h : Drops gone s s') (h' : Drops gone' s' s'') : Drops (gone ++ gone') s s'' := by
  refine ⟨h'.relay.trans h.relay, h.length.trans h'.length, fun key => ?_, fun {key ref} hr => ?_⟩
  · rw [h'.get?, h.get?]
    by_cases hk : key ∈ gone
    · simp [hk]
    · simp [hk]
  · rw [h'.heap hr, h.heap (h'.kept hr).2]

theorem owned (h : Drops gone s s') (ho : s.Owned) : s'.Owned :=
  ⟨fun hr => lt_of_lt_of_le (ho.there (h.kept hr).2) h.length,
    fun hr hr' => ho.own (h.kept hr).2 (h.kept hr').2⟩

theorem record (h : Drops gone s s') (key : Bytes) :
    s'.record key = if key ∈ gone then none else s.record key := by
  unfold Store.record
  cases hr : s'.records.get? key with
  | none =>
    have := h.get? key
    rw [hr] at this
    split at this
    · next hk => rw [if_pos hk]; rfl
    · next hk => rw [if_neg hk, ← this]; rfl
  | some ref =>
    obtain ⟨hk, hs⟩ := h.kept hr
    rw [if_neg hk, hs]
    exact h.heap hr

end Drops

theorem Drops.record_nil {s s' : Store} (h : Drops [] s s') {key : Bytes} :
    s'.record key = s.record key := by
  rw [h.record, if_neg List.not_mem_nil]

theorem drops_remove {s : Store} (ho : s.Owned) {key : Bytes} {ref : Nat}
    (hr : s.records.get? key = some ref) (why : Removal) : Drops [key] s (s.remove key ref why) := by
  refine ⟨rfl, (List.length_modify ..).ge, fun key' => ?_, fun {key' ref'} hr' => ?_⟩
  · show (s.records.delete key).get? key' = _
    rw [JsMap.get?_delete]
    simp
  · have hget : (s.records.delete key).get? key' = some ref' := hr'
    rw [JsMap.get?_delete] at hget
    split at hget
    · cases hget
    · next hne =>
      have hne' : ref ≠ ref' := by
        rintro rfl
        exact hne (ho.own hget hr)
      show (s.heap.modify ref Descriptor.clear)[ref']? = _
      rw [List.getElem?_modify]
      simp [hne']

theorem size_remove {s : Store} {key : Bytes} {ref : Nat} (hr : s.records.get? key = some ref)
    (why : Removal) : (s.remove key ref why).records.size + 1 = s.records.size :=
  JsMap.size_delete hr

/-! ## Pruning -/

/-- What a loop of removals has done so far. -/
structure Pruned (now : Nat) (gone : List Bytes) (s s' : Store) : Prop where
  drops : Drops gone s s'
  removals : s'.removals = s.removals ++ gone.map .expired
  size : s'.records.size ≤ s.records.size
  expired : ∀ key ∈ gone, ∃ d, s.record key = some d ∧ d.expiresAt ≤ now

theorem pruneEntry_cases {s : Store} (ho : s.Owned) (now : Nat) {e : Bytes × Nat}
    (he : s.records.get? e.1 = some e.2) : ∃ d, s.record e.1 = some d ∧
      ((now < d.expiresAt ∧ pruneEntry now s e = s) ∨
        (d.expiresAt ≤ now ∧ pruneEntry now s e = s.remove e.1 e.2 (.expired e.1))) := by
  obtain ⟨d, hd, hrec⟩ := ho.exists he
  refine ⟨d, hrec, ?_⟩
  unfold pruneEntry
  rw [hd]
  dsimp only
  by_cases hlt : now < d.expiresAt
  · exact .inl ⟨hlt, if_pos hlt⟩
  · exact .inr ⟨by omega, if_neg hlt⟩

/-- The loop of `_prune` over the entries that are left. -/
theorem prune_foldl {now : Nat} {s₀ : Store} (ho : s₀.Owned) :
    ∀ (es : List (Bytes × Nat)) (gone : List Bytes) (s : Store), Pruned now gone s₀ s →
      (∀ e ∈ es, s₀.records.get? e.1 = some e.2 ∧ e.1 ∉ gone) → (es.map Prod.fst).Nodup →
      ∃ gone', Pruned now gone' s₀ (es.foldl (pruneEntry now) s) ∧ gone ⊆ gone' ∧
        ∀ e ∈ es, ∀ d, s₀.record e.1 = some d → d.expiresAt ≤ now → e.1 ∈ gone' := by
  intro es
  induction es with
  | nil =>
    intro gone s hp _ _
    exact ⟨gone, hp, List.Subset.refl gone, fun e he => (List.not_mem_nil he).elim⟩
  | cons e es ih =>
    intro gone s hp hes hn
    obtain ⟨hnot, hn⟩ := List.nodup_cons.mp hn
    obtain ⟨he, hgone⟩ := hes e List.mem_cons_self
    have hrest : ∀ f ∈ es, s₀.records.get? f.1 = some f.2 ∧ f.1 ∉ gone := fun f hf =>
      hes f (List.mem_cons_of_mem e hf)
    have hget : s.records.get? e.1 = some e.2 := by
      rw [hp.drops.get?, if_neg hgone]
      exact he
    have hrec : s.record e.1 = s₀.record e.1 := by rw [hp.drops.record, if_neg hgone]
    obtain ⟨d, hd, ⟨hlive, heq⟩ | ⟨hdead, heq⟩⟩ := pruneEntry_cases (hp.drops.owned ho) now hget
    · rw [List.foldl_cons, heq]
      obtain ⟨gone', hp', hsub, hall⟩ := ih gone s hp hrest hn
      refine ⟨gone', hp', hsub, fun f hf d' hd' hexp => ?_⟩
      rcases List.mem_cons.mp hf with rfl | hf
      · obtain rfl := Option.some.inj (hd.symm.trans (hrec.trans hd'))
        omega
      · exact hall f hf d' hd' hexp
    · rw [List.foldl_cons, heq]
      have hp₁ : Pruned now (gone ++ [e.1]) s₀ (s.remove e.1 e.2 (.expired e.1)) := by
        refine ⟨hp.drops.trans (drops_remove (hp.drops.owned ho) hget _), ?_, ?_, fun key hk => ?_⟩
        · show s.removals ++ [Removal.expired e.1] = _
          rw [hp.removals, List.map_append, List.append_assoc]
          rfl
        · have := size_remove hget (.expired e.1)
          have := hp.size
          omega
        · rcases List.mem_append.mp hk with hk | hk
          · exact hp.expired key hk
          · obtain rfl := List.mem_singleton.mp hk
            exact ⟨d, hrec.symm.trans hd, hdead⟩
      have hrest₁ : ∀ f ∈ es, s₀.records.get? f.1 = some f.2 ∧ f.1 ∉ gone ++ [e.1] := by
        intro f hf
        refine ⟨(hrest f hf).1, fun hm => ?_⟩
        rcases List.mem_append.mp hm with hm | hm
        · exact (hrest f hf).2 hm
        · exact hnot (List.mem_singleton.mp hm ▸ List.mem_map_of_mem hf)
      obtain ⟨gone', hp', hsub, hall⟩ := ih (gone ++ [e.1]) _ hp₁ hrest₁ hn
      refine ⟨gone', hp', fun key hk => hsub (List.mem_append_left _ hk), fun f hf => ?_⟩
      rcases List.mem_cons.mp hf with rfl | hf
      · exact fun _ _ _ => hsub (List.mem_append_right _ List.mem_cons_self)
      · exact hall f hf

/-- `_prune` removes the records that have expired, and no others. -/
theorem prune_spec {s : Store} (ho : s.Owned) (now : Nat) :
    ∃ gone, Pruned now gone s (s.prune now) ∧
      ∀ key d, s.record key = some d → d.expiresAt ≤ now → key ∈ gone := by
  have hstart : Pruned now [] s s :=
    ⟨.refl s, (List.append_nil _).symm, le_rfl, fun _ hk => (List.not_mem_nil hk).elim⟩
  obtain ⟨gone, hp, -, hall⟩ := prune_foldl ho s.records.entries [] s hstart
    (fun e he => ⟨JsMap.mem_entries.mp he, List.not_mem_nil⟩) s.records.nodup
  refine ⟨gone, hp, fun key d hd hexp => ?_⟩
  obtain ⟨ref, hr, -⟩ := record_eq_some.mp hd
  exact hall (key, ref) (JsMap.mem_entries.mpr hr) d hd hexp

/-! ## Evicting -/

/-- The loop of `_evictOldest`: it ends with an entry that expires first. -/
theorem olderOf_foldl {heap : List Descriptor} : ∀ (es : List (Bytes × Nat))
    (best : Option ((Bytes × Nat) × Nat)), (∀ e ∈ es, e.2 < heap.length) →
    (best ≠ none ∨ es ≠ []) →
    ∃ e expiry, es.foldl (olderOf heap) best = some (e, expiry) ∧
      (best = some (e, expiry) ∨ e ∈ es ∧ ∃ d, heap[e.2]? = some d ∧ d.expiresAt = expiry) ∧
      (∀ e₀ expiry₀, best = some (e₀, expiry₀) → expiry ≤ expiry₀) ∧
      ∀ f ∈ es, ∀ d, heap[f.2]? = some d → expiry ≤ d.expiresAt := by
  intro es
  induction es with
  | nil =>
    intro best _ hne
    obtain ⟨⟨e, expiry⟩, rfl⟩ := Option.ne_none_iff_exists'.mp (hne.resolve_right fun h => h rfl)
    refine ⟨e, expiry, rfl, .inl rfl, fun e₀ expiry₀ h => ?_, fun f hf => (List.not_mem_nil hf).elim⟩
    cases h
    exact le_rfl
  | cons f es ih =>
    intro best hes _
    obtain ⟨df, hf⟩ : ∃ df, heap[f.2]? = some df :=
      ⟨_, List.getElem?_eq_getElem (hes f List.mem_cons_self)⟩
    have hrest : ∀ e ∈ es, e.2 < heap.length := fun e he => hes e (List.mem_cons_of_mem f he)
    -- the best so far after `f`: `f` itself, or one that expires no later
    have hnext : ∃ e₁ expiry₁, olderOf heap best f = some (e₁, expiry₁) ∧
        (best = some (e₁, expiry₁) ∨ e₁ = f ∧ expiry₁ = df.expiresAt) ∧
        (∀ e₀ expiry₀, best = some (e₀, expiry₀) → expiry₁ ≤ expiry₀) ∧
        expiry₁ ≤ df.expiresAt := by
      unfold olderOf
      rw [hf]
      dsimp only
      cases best with
      | none => exact ⟨f, _, rfl, .inr ⟨rfl, rfl⟩, fun _ _ h => (by cases h), le_rfl⟩
      | some b =>
        obtain ⟨e₀, expiry₀⟩ := b
        dsimp only
        split
        · next hlt =>
          refine ⟨f, _, rfl, .inr ⟨rfl, rfl⟩, fun _ _ h => ?_, le_rfl⟩
          cases h
          omega
        · next hle =>
          refine ⟨e₀, expiry₀, rfl, .inl rfl, fun _ _ h => ?_, by omega⟩
          cases h
          exact le_rfl
    obtain ⟨e₁, expiry₁, h₁, horigin₁, hle₁, hf₁⟩ := hnext
    obtain ⟨e, expiry, he, horigin, hle, hall⟩ :=
      ih (olderOf heap best f) hrest (.inl (by rw [h₁]; exact Option.some_ne_none _))
    have hstep := hle e₁ expiry₁ h₁
    refine ⟨e, expiry, he, ?_, fun e₀ expiry₀ h => le_trans hstep (hle₁ e₀ expiry₀ h),
      fun g hg d hd => ?_⟩
    · rcases horigin with h | ⟨hm, d, hd, hexp⟩
      · rw [h₁] at h
        obtain ⟨rfl, rfl⟩ := Prod.mk.inj (Option.some.inj h)
        rcases horigin₁ with h | ⟨rfl, rfl⟩
        · exact .inl h
        · exact .inr ⟨List.mem_cons_self, _, hf, rfl⟩
      · exact .inr ⟨List.mem_cons_of_mem f hm, d, hd, hexp⟩
    · rcases List.mem_cons.mp hg with rfl | hg
      · obtain rfl := Option.some.inj (hf.symm.trans hd)
        exact le_trans hstep hf₁
      · exact hall g hg d hd

/-- `_evictOldest` removes a record that expires first. -/
theorem evictOldest_spec {s : Store} (ho : s.Owned) (hne : s.records.size ≠ 0) :
    ∃ victim ref d, s.records.get? victim = some ref ∧ s.heap[ref]? = some d ∧
      s.evictOldest = s.remove victim ref (.evicted victim) ∧
      ∀ key d', s.record key = some d' → d.expiresAt ≤ d'.expiresAt := by
  have hentries : s.records.entries ≠ [] := fun h => hne (by rw [JsMap.size, h]; rfl)
  have hthere : ∀ e ∈ s.records.entries, e.2 < s.heap.length := fun e he =>
    ho.there (JsMap.mem_entries.mp he)
  obtain ⟨⟨victim, ref⟩, expiry, he, horigin, -, hall⟩ :=
    olderOf_foldl s.records.entries none hthere (.inr hentries)
  obtain ⟨hmem, d, hd, rfl⟩ := horigin.resolve_left (by simp)
  refine ⟨victim, ref, d, JsMap.mem_entries.mp hmem, hd, ?_, fun key d' hd' => ?_⟩
  · unfold evictOldest
    rw [he]
  · obtain ⟨ref', hr', hd'⟩ := record_eq_some.mp hd'
    exact hall (key, ref') (JsMap.mem_entries.mpr hr') d' hd'

/-- An object nothing refers to is left alone. -/
theorem getElem?_evictOldest {s : Store} (ho : s.Owned) (hne : s.records.size ≠ 0) {i : Nat}
    (hi : ∀ key, s.records.get? key ≠ some i) : s.evictOldest.heap[i]? = s.heap[i]? := by
  obtain ⟨victim, ref, -, hr, -, he, -⟩ := evictOldest_spec ho hne
  have hne' : ref ≠ i := by
    rintro rfl
    exact hi victim hr
  rw [he]
  show (s.heap.modify ref Descriptor.clear)[i]? = _
  rw [List.getElem?_modify]
  simp [hne']

/-! ## Storing -/

/-- A PUT whose descriptor passes its checks. -/
def Accepts (k : Suite) (call : Arrival) (d : Descriptor) : Prop :=
  ∃ wire, call.request = .put true (some wire) ∧
    decodeDescriptor k ⟨call.readings.decode, some (periodOf call.readings.period), none⟩ wire =
      .ok d ∧ k.hash d.blindedPublicKey = call.target

/-- From `s` to `s'` a new object was stored under `target`, and nothing else happened to
what is still stored. -/
structure Stored (target : Bytes) (d : Descriptor) (s s' : Store) : Prop where
  relay : s'.relayPublicKey = s.relayPublicKey
  removals : s'.removals = s.removals
  length : s.heap.length ≤ s'.heap.length
  self : ∃ ref, s'.records.get? target = some ref ∧ s'.heap[ref]? = some d ∧
    ∀ key, s.records.get? key ≠ some ref
  other : ∀ {key : Bytes}, key ≠ target → s'.records.get? key = s.records.get? key
  heap : ∀ {key : Bytes} {ref : Nat}, key ≠ target → s.records.get? key = some ref →
    s'.heap[ref]? = s.heap[ref]?

theorem Stored.owned {target : Bytes} {d : Descriptor} {s s' : Store} (h : Stored target d s s')
    (ho : s.Owned) : s'.Owned := by
  obtain ⟨ref₀, hself, hd, hfresh⟩ := h.self
  have hlt : ref₀ < s'.heap.length := (List.getElem?_eq_some_iff.mp hd).1
  have hcases : ∀ {key : Bytes} {ref : Nat}, s'.records.get? key = some ref →
      (key = target ∧ ref = ref₀) ∨ (key ≠ target ∧ s.records.get? key = some ref) := by
    intro key ref hr
    by_cases hk : key = target
    · subst hk
      exact .inl ⟨rfl, Option.some.inj (hr.symm.trans hself)⟩
    · exact .inr ⟨hk, h.other hk ▸ hr⟩
  refine ⟨fun {key ref} hr => ?_, fun {key key' ref} hr hr' => ?_⟩
  · rcases hcases hr with ⟨-, rfl⟩ | ⟨-, hs⟩
    · exact hlt
    · exact lt_of_lt_of_le (ho.there hs) h.length
  · rcases hcases hr with ⟨rfl, rfl⟩ | ⟨-, hs⟩
    · rcases hcases hr' with ⟨rfl, -⟩ | ⟨-, hs'⟩
      · rfl
      · exact absurd hs' (hfresh key')
    · rcases hcases hr' with ⟨rfl, rfl⟩ | ⟨-, hs'⟩
      · exact absurd hs (hfresh key)
      · exact ho.own hs hs'

/-- A decoded object that nothing refers to yet. -/
theorem drops_alloc {s : Store} (ho : s.Owned) (d : Descriptor) :
    Drops [] s { s with heap := s.heap ++ [d] } := by
  refine ⟨rfl, by simp, fun key => by simp, fun {key ref} hr => ?_⟩
  exact List.getElem?_append_left (ho.there hr)

theorem drops_wipe {s : Store} {ref : Nat} (h : ∀ key, s.records.get? key ≠ some ref) :
    Drops [] s (s.wipe ref) := by
  refine ⟨rfl, (List.length_modify ..).ge, fun key => by simp [wipe], fun {key ref'} hr => ?_⟩
  have hne : ref ≠ ref' := by
    rintro rfl
    exact h key hr
  show (s.heap.modify ref Descriptor.clear)[ref']? = _
  rw [List.getElem?_modify]
  simp [hne]

/-- The new object is stored under a key that is free, or whose object is wiped. -/
theorem stored_set {s : Store} {target : Bytes} {d : Descriptor} {ref : Nat}
    (hd : s.heap[ref]? = some d) (hfresh : ∀ key, s.records.get? key ≠ some ref) :
    Stored target d s { s with records := s.records.set target ref } := by
  refine ⟨rfl, rfl, le_rfl, ⟨ref, JsMap.get?_set_self _ _ _, hd, hfresh⟩, fun {key} hk => ?_,
    fun _ _ => rfl⟩
  exact JsMap.get?_set_ne _ _ hk

theorem Stored.after {target : Bytes} {d : Descriptor} {s s₁ s' : Store}
    (h : Stored target d s₁ s') (hd : Drops [] s s₁) (hr : s₁.removals = s.removals)
    (hrec : s₁.records = s.records) : Stored target d s s' := by
  obtain ⟨ref, hself, hobj, hfresh⟩ := h.self
  refine ⟨h.relay.trans hd.relay, h.removals.trans hr, hd.length.trans h.length,
    ⟨ref, hself, hobj, fun key => hrec ▸ hfresh key⟩, fun {key} hk => ?_, fun {key ref'} hk hs => ?_⟩
  · rw [h.other hk, hrec]
  · have hs₁ : s₁.records.get? key = some ref' := hrec.symm ▸ hs
    rw [h.heap hk hs₁, hd.heap hs₁]

/-- What storing a descriptor may come with: the place was empty, with room for it or with a
record evicted for it, or it held a lower sequence number. -/
inductive Placed (call : Arrival) (d : Descriptor) (s s' : Store) : Prop where
  | fresh : s.records.get? call.target = none → s.records.size < maxRecords →
      Stored call.target d s s' → s'.records.size = s.records.size + 1 → Placed call d s s'
  | evicting {s₂ : Store} {victim : Bytes} {old : Descriptor} :
      s.records.get? call.target = none → maxRecords ≤ s.records.size →
      s.record victim = some old → Drops [victim] s s₂ →
      s₂.removals = s.removals ++ [.evicted victim] → Stored call.target d s₂ s' →
      s'.records.size = s.records.size →
      (∀ key d', s.record key = some d' → old.expiresAt ≤ d'.expiresAt) → Placed call d s s'
  | replacing {current : Descriptor} : s.record call.target = some current → current.seq < d.seq →
      Stored call.target d s s' → s'.records.size = s.records.size → Placed call d s s'

/-- The object of a PUT that is not stored is wiped again. -/
theorem drops_discard {s : Store} (ho : s.Owned) (d : Descriptor) :
    Drops [] s ({ s with heap := s.heap ++ [d] }.wipe s.heap.length) := by
  have hfresh : ∀ key, s.records.get? key ≠ some s.heap.length := fun key hr =>
    absurd (ho.there hr) (lt_irrefl _)
  exact (drops_alloc ho d).trans (drops_wipe hfresh)

theorem placed_new {s : Store} (ho : s.Owned) {call : Arrival} (d : Descriptor)
    (hnone : s.records.get? call.target = none) {s₁ s₂ : Store}
    (h₁ : s₁ = { s with heap := s.heap ++ [d] })
    (h₂ : s₂ = if maxRecords ≤ s₁.records.size then s₁.evictOldest else s₁) :
    Placed call d s { s₂ with records := s₂.records.set call.target s.heap.length } := by
  have hrecords : s₁.records = s.records := by rw [h₁]
  have hfresh : ∀ key, s₁.records.get? key ≠ some s.heap.length := fun key hr =>
    absurd (ho.there (hrecords ▸ hr)) (lt_irrefl _)
  have hd : s₁.heap[s.heap.length]? = some d := by
    rw [h₁]
    exact List.getElem?_concat_length
  have halloc : Drops [] s s₁ := h₁ ▸ drops_alloc ho d
  by_cases hfull : maxRecords ≤ s₁.records.size
  · rw [if_pos hfull] at h₂
    subst h₂
    have hne : s₁.records.size ≠ 0 := by
      have : maxRecords = 256 := rfl
      omega
    obtain ⟨victim, ref, old, hr, hold, he, hmin⟩ := evictOldest_spec (halloc.owned ho) hne
    have hdrops : Drops [victim] s₁ s₁.evictOldest := he ▸ drops_remove (halloc.owned ho) hr _
    have hlost : s₁.evictOldest.records.get? call.target = none := by
      rw [hdrops.get?, hrecords, hnone]
      exact ite_self none
    have hkept : ∀ key, s₁.evictOldest.records.get? key ≠ some s.heap.length := fun key hk =>
      hfresh key (hdrops.kept hk).2
    have hrecord : s.record victim = some old := by
      rw [← halloc.record_nil]
      exact record_eq_some.mpr ⟨ref, hr, hold⟩
    refine .evicting hnone (hrecords ▸ hfull) hrecord (halloc.trans hdrops) ?_
      (stored_set ?_ hkept) ?_ fun key d' hd' => ?_
    · rw [he, h₁]
      rfl
    · exact (getElem?_evictOldest (halloc.owned ho) hne hfresh).trans hd
    · have hsize := size_remove hr (.evicted victim)
      rw [← he, hrecords] at hsize
      rw [← hsize]
      exact JsMap.size_set_new hlost _
    · exact hmin key d' (halloc.record_nil ▸ hd')
  · rw [if_neg hfull] at h₂
    subst h₂
    refine .fresh hnone (by rw [← hrecords]; omega)
      ((stored_set hd hfresh).after halloc (by rw [h₁]) hrecords) ?_
    show (s₂.records.set _ _).size = _
    rw [hrecords]
    exact JsMap.size_set_new hnone _

theorem stored_over {s : Store} (ho : s.Owned) {target : Bytes} (d : Descriptor) {held : Nat}
    (hget : s.records.get? target = some held) :
    Stored target d s { ({ s with heap := s.heap ++ [d] }.wipe held) with
      records := s.records.set target s.heap.length } := by
  have hlt := ho.there hget
  have hfresh : ∀ key, s.records.get? key ≠ some s.heap.length := fun key hr =>
    absurd (ho.there hr) (lt_irrefl _)
  refine ⟨rfl, rfl, by simp [wipe], ⟨s.heap.length, JsMap.get?_set_self _ _ _, ?_, hfresh⟩,
    fun {key} hk => JsMap.get?_set_ne _ _ hk, fun {key ref} hk hs => ?_⟩
  · show ((s.heap ++ [d]).modify held Descriptor.clear)[s.heap.length]? = some d
    rw [List.getElem?_modify, List.getElem?_concat_length]
    simp [hlt.ne]
  · have hne : held ≠ ref := by
      rintro rfl
      exact hk (ho.own hs hget)
    show ((s.heap ++ [d]).modify held Descriptor.clear)[ref]? = _
    rw [List.getElem?_modify, List.getElem?_append_left (ho.there hs)]
    simp [hne]

/-- **What a PUT does** after the pruning: nothing to what is stored, or its descriptor, a
new object, is placed under its target. -/
theorem onput_cases {k : Suite} {s s' : Store} {answer : Answer} (ho : s.Owned) {call : Arrival}
    {token : Bool} {value : Option Bytes} (hreq : call.request = .put token value)
    (h : s.onput k call.readings call.target token value = (s', answer)) :
    (Drops [] s s' ∧ s'.removals = s.removals ∧ s'.records = s.records) ∨
      ∃ d, Accepts k call d ∧ Placed call d s s' ∧
        s'.records.get? call.target = some s.heap.length := by
  have hsame : Drops [] s s ∧ s.removals = s.removals ∧ s.records = s.records :=
    ⟨.refl s, rfl, rfl⟩
  unfold onput at h
  cases token with
  | false =>
    cases h
    exact .inl hsame
  | true =>
    cases value with
    | none =>
      cases h
      exact .inl hsame
    | some wire =>
      dsimp only at h
      cases hdec : decodeDescriptor k
          ⟨call.readings.decode, some (periodOf call.readings.period), none⟩ wire with
      | error e =>
        rw [hdec] at h
        cases h
        exact .inl hsame
      | ok d =>
        rw [hdec] at h
        dsimp only at h
        have hdiscard := drops_discard ho d
        split at h
        · cases h
          exact .inl ⟨hdiscard, rfl, rfl⟩
        · next hhash =>
          have haccepts : Accepts k call d := ⟨wire, hreq, hdec, not_not.mp hhash⟩
          cases hget : s.records.get? call.target with
          | none =>
            rw [hget] at h
            cases h
            exact .inr ⟨d, haccepts, placed_new ho d hget rfl rfl, JsMap.get?_set_self _ _ _⟩
          | some held =>
            rw [hget] at h
            obtain ⟨current, hcur, hrec⟩ := ho.exists hget
            have hcur' : (s.heap ++ [d])[held]? = some current :=
              (List.getElem?_append_left (ho.there hget)).trans hcur
            dsimp only at h
            rw [hcur'] at h
            dsimp only at h
            split at h
            · cases h
              exact .inl ⟨hdiscard, rfl, rfl⟩
            · split at h
              · next hlt =>
                cases h
                exact .inr ⟨d, haccepts, .replacing hrec hlt (stored_over ho d hget)
                  (JsMap.size_set hget _), JsMap.get?_set_self _ _ _⟩
              · cases h
                exact .inl ⟨hdiscard, rfl, rfl⟩

end Store

end HyperDht.Private
