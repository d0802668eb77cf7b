import HyperDht.Dht.Announcements

/-!
# What an unannouncement leaves behind

A run of announcements, refreshes and unannouncements on one node. After an accepted
unannouncement neither the router nor the record cache lists the key under the target, until
a request refreshes an entry that the refresh map has kept.
-/

namespace HyperDht.Announcements

open CompactEncoding Messages

variable {τ : Type} {e : Env τ}

/-- The record cache or the router has the key under the target. -/
def Listed (n : Node τ) (p : List UInt8 × List UInt8) : Prop :=
  (n.records.get? p).isSome ∨ ∃ fwd, n.router.get? p.1 = some fwd ∧ keyOf fwd.record = p.2

/-- The target and the public key a request is about. -/
def subject (e : Env τ) (req : Request) : Option (List UInt8 × List UInt8) := do
  let target ← req.target
  let ann ← req.value.bind e.decode
  let peer ← ann.peer
  some (target, peer.publicKey.val)

theorem subject_of_announces {id : Option (List UInt8)} {req : Request} {a : Ann τ} {p : Peer}
    {r : Refresh} (h : Announces e id req a p r) : subject e req = some (r.k, keyOf r.record) := by
  unfold subject
  rw [h.target, h.decoded, h.keyOf]
  simp [h.peer]

theorem subject_of_unannounces {id : Option (List UInt8)} {req : Request} {k : List UInt8}
    {p : Peer} (h : Unannounces e id req k p) : subject e req = some (k, p.publicKey.val) := by
  obtain ⟨a, ha, hp⟩ := h.decoded
  unfold subject
  rw [h.target, ha]
  simp [hp]

theorem Placed.listed {n n' : Node τ} {r : Refresh} {relay : Ipv4} (h : Placed n n' r relay) :
    Listed n' (r.k, keyOf r.record) := by
  cases hself : r.announceSelf with
  | true =>
    refine .inr ⟨⟨relay, r.record⟩, ?_, rfl⟩
    rw [h.router, if_pos hself]
    exact JsMap.get?_set_self _ _ _
  | false =>
    refine .inl ?_
    rw [h.records, if_neg (by simp [hself]), JsMap.get?_set_self]
    rfl

theorem Placed.of_listed {n n' : Node τ} {r : Refresh} {relay : Ipv4} (h : Placed n n' r relay)
    {p : List UInt8 × List UInt8} (hp : Listed n' p) (hne : p ≠ (r.k, keyOf r.record)) :
    Listed n p := by
  obtain ⟨k, key⟩ := p
  cases hself : r.announceSelf with
  | true =>
    rcases hp with hp | ⟨fwd, hfwd, hkey⟩
    · rw [h.records, if_pos hself, JsMap.get?_delete_ne _ hne] at hp
      exact .inl hp
    · rw [h.router, if_pos hself, JsMap.get?_set] at hfwd
      split at hfwd
      · next hk =>
        obtain rfl := Option.some.inj hfwd
        exact (hne (Prod.ext hk hkey.symm)).elim
      · exact .inr ⟨fwd, hfwd, hkey⟩
  | false =>
    rcases hp with hp | ⟨fwd, hfwd, hkey⟩
    · rw [h.records, if_neg (by simp [hself]), JsMap.get?_set_ne _ _ hne] at hp
      exact .inl hp
    · rw [h.router, if_neg (by simp [hself])] at hfwd
      exact .inr ⟨fwd, hfwd, hkey⟩

/-- The router stays keyed by hashes where a record is placed by its own. -/
theorem Placed.router_keyed {n n' : Node τ} {r : Refresh} {relay : Ipv4}
    (h : Placed n n' r relay)
    (hself : r.announceSelf = decide ((e.hash (keyOf r.record)).val = r.k))
    (hrouter : ∀ k fwd, n.router.get? k = some fwd → (e.hash (keyOf fwd.record)).val = k) (k fwd)
    (hfwd : n'.router.get? k = some fwd) : (e.hash (keyOf fwd.record)).val = k := by
  rw [h.router] at hfwd
  split at hfwd
  · next htrue =>
    rw [JsMap.get?_set] at hfwd
    split at hfwd
    · next hk =>
      obtain rfl := Option.some.inj hfwd
      rw [hk]
      exact of_decide_eq_true (hself.symm.trans htrue)
    · exact hrouter k fwd hfwd
  · exact hrouter k fwd hfwd

/-- An unannounced key is not listed, and no other is that was not. -/
theorem not_listed_unannounce {n : Node τ}
    (hrouter : ∀ k fwd, n.router.get? k = some fwd → (e.hash (keyOf fwd.record)).val = k)
    (k key : List UInt8) : ¬ Listed (unannounce e n k key) (k, key) := by
  rintro (h | ⟨fwd, hfwd, hkey⟩)
  · simp [unannounce] at h
  · dsimp only [unannounce] at hfwd hkey
    split at hfwd
    · simp at hfwd
    · next hne =>
      have := hrouter k fwd hfwd
      rw [hkey] at this
      exact hne this

theorem of_listed_unannounce {n : Node τ} {k key : List UInt8} {p : List UInt8 × List UInt8}
    (hp : Listed (unannounce e n k key) p) : Listed n p := by
  rcases hp with h | ⟨fwd, hfwd, hkey⟩
  · dsimp only [unannounce] at h
    rw [JsMap.get?_delete] at h
    split at h
    · simp at h
    · exact .inl h
  · dsimp only [unannounce] at hfwd
    split at hfwd
    · rw [JsMap.get?_delete] at hfwd
      split at hfwd
      · simp at hfwd
      · exact .inr ⟨fwd, hfwd, hkey⟩
    · exact .inr ⟨fwd, hfwd, hkey⟩

/-! ## One request of a run -/

inductive Call where
  | announce (id : Option (List UInt8)) (now : Nat) (req : Request)
  | unannounce (id : Option (List UInt8)) (req : Request)

/-- A node, and the targets and keys whose unannouncement has been accepted with no
announcement accepted since. -/
structure Run (τ : Type) where
  node : Node τ
  gone : List (List UInt8 × List UInt8)

def Run.start : Run τ := ⟨.empty, []⟩

variable [DecidableEq τ]

def step (e : Env τ) (s : Run τ) : Call → Run τ
  | .announce id now req =>
    let (node, answer) := onannounce e s.node id now req
    ⟨node, if answer = .reply then s.gone.filter fun p => some p ≠ subject e req else s.gone⟩
  | .unannounce id req =>
    let (node, answer) := onunannounce e s.node id req
    ⟨node, if answer = .reply then (subject e req).toList ++ s.gone else s.gone⟩

def StaysGone (s : Run τ) : Prop := ∀ p ∈ s.gone, ¬ Listed s.node p

/-- The request refreshes no record that is gone. -/
def Meets (e : Env τ) (s : Run τ) : Call → Prop
  | .announce id _ req =>
    ∀ token r, Refreshes e s.node id req token r → (r.k, keyOf r.record) ∉ s.gone
  | .unannounce _ _ => True

/-- The router has under a target keys that hash to it, and the refresh map puts a record
there exactly where its key does. -/
structure Inv (e : Env τ) (s : Run τ) : Prop where
  router : ∀ k fwd, s.node.router.get? k = some fwd → (e.hash (keyOf fwd.record)).val = k
  refreshes : ∀ token r, s.node.refreshes.get? token = some r →
    r.announceSelf = decide ((e.hash (keyOf r.record)).val = r.k)
  staysGone : StaysGone s

variable {s : Run τ}

theorem subject_of_refreshes {n : Node τ} {id : Option (List UInt8)} {req : Request} {token : τ}
    {r : Refresh} (h : Refreshes e n id req token r) : subject e req = none := by
  obtain ⟨a, ha, hp, -⟩ := h.decoded
  unfold subject
  rw [ha]
  cases req.target <;> simp [hp]

theorem Inv.unannounce (h : Inv e s) (id : Option (List UInt8)) (req : Request) :
    Inv e (step e s (.unannounce id req)) := by
  rcases onunannounce_cases e s.node id req with ⟨hn, hreply⟩ | ⟨k, p, hun, heq⟩
  · have hstep : step e s (.unannounce id req) = s := by
      simp [step, hn, hreply]
    rw [hstep]
    exact h
  · have hstep : step e s (.unannounce id req) =
        ⟨Announcements.unannounce e s.node k p.publicKey.val, (k, p.publicKey.val) :: s.gone⟩ := by
      simp [step, heq, subject_of_unannounces hun]
    rw [hstep]
    refine ⟨fun k' fwd hfwd => ?_, h.refreshes, fun q hq => ?_⟩
    · dsimp only [Announcements.unannounce] at hfwd
      split at hfwd
      · rw [JsMap.get?_delete] at hfwd
        split at hfwd
        · simp at hfwd
        · exact h.router k' fwd hfwd
      · exact h.router k' fwd hfwd
    · rcases List.mem_cons.mp hq with rfl | hq
      · exact not_listed_unannounce h.router k p.publicKey.val
      · exact fun hlisted => h.staysGone q hq (of_listed_unannounce hlisted)

theorem Inv.announce (h : Inv e s) {id : Option (List UInt8)} {now : Nat} {req : Request}
    (hmeets : Meets e s (.announce id now req)) : Inv e (step e s (.announce id now req)) := by
  rcases onannounce_cases e s.node id now req with
    ⟨hn, hreply⟩ | ⟨a, p, r, hann, hreply, hplaced, hmap⟩ | ⟨token, r, hrefresh, hreply, hplaced, hmap⟩
  · have hstep : step e s (.announce id now req) = s := by
      simp [step, hn, hreply]
    rw [hstep]
    exact h
  · have hself : r.announceSelf = decide ((e.hash (keyOf r.record)).val = r.k) := by
      rw [hann.keyOf]
      exact hann.announceSelf
    refine ⟨hplaced.router_keyed hself h.router, fun token r' hr' => ?_, fun q hq => ?_⟩
    · change (onannounce e s.node id now req).1.refreshes.get? token = some r' at hr'
      rw [hmap] at hr'
      split at hr'
      · exact h.refreshes token r' hr'
      · rw [JsMap.get?_set] at hr'
        split at hr'
        · obtain rfl := Option.some.inj hr'
          exact hself
        · exact h.refreshes token r' hr'
    · simp only [step, hreply, if_true, List.mem_filter, subject_of_announces hann] at hq
      obtain ⟨hq, hne⟩ := hq
      have hne : q ≠ (r.k, keyOf r.record) := by simpa using hne
      exact fun hlisted => h.staysGone q hq (hplaced.of_listed hlisted hne)
  · have hself := h.refreshes _ r hrefresh.active
    refine ⟨hplaced.router_keyed hself h.router, fun token' r' hr' => ?_, fun q hq => ?_⟩
    · change (onannounce e s.node id now req).1.refreshes.get? token' = some r' at hr'
      rw [hmap, JsMap.get?_set] at hr'
      split at hr'
      · obtain rfl := Option.some.inj hr'
        exact hself
      · rw [JsMap.get?_delete] at hr'
        split at hr'
        · simp at hr'
        · exact h.refreshes token' r' hr'
    · have hq : q ∈ s.gone := by
        simpa [step, hreply, subject_of_refreshes hrefresh] using hq
      have hne : q ≠ (r.k, keyOf r.record) := by
        rintro rfl
        exact hmeets token r hrefresh hq
      exact fun hlisted => h.staysGone q hq (hplaced.of_listed hlisted hne)

theorem Inv.step (h : Inv e s) : ∀ c, Meets e s c → Inv e (step e s c)
  | .announce _ _ _, hmeets => h.announce hmeets
  | .unannounce id req, _ => h.unannounce id req

theorem inv_start (e : Env τ) : Inv e Run.start where
  router := by simp [Run.start, Node.empty]
  refreshes := by simp [Run.start, Node.empty]
  staysGone := by simp [StaysGone, Run.start]

/-- A refresh lists the key of its entry, also one that is gone. -/
theorem not_staysGone_of_refresh {c : Call} (hnot : ¬ Meets e s c) :
    ¬ StaysGone (Announcements.step e s c) := by
  cases c with
  | unannounce id req => exact (hnot trivial).elim
  | announce id now req =>
    simp only [Meets, not_forall, not_not] at hnot
    obtain ⟨token, r, hrefresh, hgone⟩ := hnot
    rcases onrefresh_cases e s.node token req with ⟨hnone, -⟩ | ⟨r', hr', hreply, hplaced, -⟩
    · rw [hrefresh.active] at hnone
      exact (Option.some_ne_none r hnone).elim
    · obtain rfl := Option.some.inj (hrefresh.active.symm.trans hr')
      intro hstays
      refine hstays (r.k, keyOf r.record) ?_ ?_
      · simpa [Announcements.step, hrefresh.onannounce_eq, hreply,
          subject_of_refreshes hrefresh] using hgone
      · simpa [Announcements.step, hrefresh.onannounce_eq] using hplaced.listed

/-! ## Runs -/

/-- In every state of a run what is gone is not listed, exactly where no request refreshes a
record that is gone. -/
theorem unannounced_gone_iff (e : Env τ) (calls : List Call) :
    AllGood (step e) StaysGone Run.start calls ↔ AllMeet (step e) (Meets e) Run.start calls :=
  allGood_iff_allMeet (inv_start e) (fun _ c h hmeets => h.step c hmeets) (fun _ h => h.staysGone)
    (fun _ _ _ hnot => not_staysGone_of_refresh hnot) calls

def sumHash (b : List UInt8) : Fixed 32 := .replicate 32 (b.foldl (· + ·) 1)

/-- A node that accepts every signature. -/
def trusting : Env (Fixed 32) :=
  .ofBytes sumHash (fun _ _ _ => true) (sumHash [1]) (sumHash [2])
    fun n => .replicate n 0

/-- A request on the target `[7]` with a message of these flags. -/
def sent (flags : UInt8) (fields : List UInt8) : Request :=
  ⟨some [7], some [8], some (flags :: fields), ⟨localhost, 1⟩⟩

/-- An announcement with a refresh token, its unannouncement, and the late refresh. -/
def lateRefresh : List Call :=
  let peer := List.replicate 32 2 ++ [0]
  let signature := List.replicate 64 3
  [.announce (some [9]) 0 (sent 7 (peer ++ List.replicate 32 1 ++ signature)),
    .unannounce (some [9]) (sent 5 (peer ++ signature)),
    .announce (some [9]) 0 (sent 2 (List.replicate 32 0))]

theorem not_unannounced_gone :
    ¬ ∀ (e : Env (Fixed 32)) (calls : List Call), AllGood (step e) StaysGone Run.start calls := by
  intro h
  have hgood := h trusting lateRefresh lateRefresh (List.prefix_refl _)
  refine hgood ([7], List.replicate 32 2) ?_ (.inl ?_)
  · decide +kernel
  · decide +kernel

end HyperDht.Announcements
