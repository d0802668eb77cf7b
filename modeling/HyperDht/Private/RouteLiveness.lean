import HyperDht.Private.RouteLifecycle

/-!
# When a listening server stays reachable

Every loss of the route starts a publish, or marks the one in flight to be repeated
(`live_of_lost`). What can still leave a listening server without a route is named by
`Meets`, and `reachable_iff` says that it is that and nothing else: a run keeps the server
reachable in every state if and only if all its steps meet the condition.
-/

namespace HyperDht.Private.Publishing

namespace PeerServer

variable {s t : PeerServer} {r n : Nat}

def IsOpen (s : PeerServer) (r : Nat) : Prop := ∃ c, s.circuits[r]? = some c ∧ c.closed = false

/-- `t` is `s` after circuits other than `n` were retired or closed. -/
structure Thinned (n : Nat) (s t : PeerServer) : Prop where
  same : t = { s with circuits := t.circuits, routes := t.routes }
  sub : ∀ r ∈ t.routes, r ∈ s.routes
  keep : n ∈ s.routes → n ∈ t.routes
  current : t.circuits[n]? = s.circuits[n]?
  opens : (∀ r ∈ s.routes, s.IsOpen r) → ∀ r ∈ t.routes, t.IsOpen r
  retired : ∀ (r : Nat) c c', s.circuits[r]? = some c → t.circuits[r]? = some c' →
    c.retired = true → c'.retired = true
  length : t.circuits.length = s.circuits.length

theorem Thinned.refl (n : Nat) (s : PeerServer) : Thinned n s s where
  same := rfl
  sub _ h := h
  keep h := h
  current := rfl
  opens h := h
  retired _ _ _ h h' hr := by
    rw [h] at h'
    cases h'
    exact hr
  length := rfl

theorem Thinned.trans {u : PeerServer} (h : Thinned n s t) (h' : Thinned n t u) : Thinned n s u where
  same := by
    rw [h'.same, h.same]
  sub r hr := h.sub r (h'.sub r hr)
  keep hn := h'.keep (h.keep hn)
  current := h'.current.trans h.current
  opens ho := h'.opens (h.opens ho)
  retired r c c'' hc hc'' hr := by
    have hlt : r < t.circuits.length := by
      rw [← h'.length]
      exact (List.getElem?_eq_some_iff.mp hc'').1
    have hc' := List.getElem?_eq_getElem hlt
    exact h'.retired r _ c'' hc' hc'' (h.retired r c _ hc hc' hr)
  length := h'.length.trans h.length

theorem destinationUnavailable_other (h : s.route ≠ some r) : s._destinationUnavailable r = s :=
  if_neg h

theorem getElem?_setCircuit (s : PeerServer) (r k : Nat) (f : Circuit → Circuit) :
    (s.setCircuit r f).circuits[k]? = (s.circuits[k]?).map fun c => if r = k then f c else c :=
  List.getElem?_modify _ _ _ _

theorem thinned_setCircuit {f : Circuit → Circuit} (routes : List Nat)
    (hretired : ∀ c, c.retired = true → (f c).retired = true) (hne : r ≠ n)
    (hroutes : ∀ k, k ∈ routes → k ∈ s.routes) (hkeep : ∀ k ∈ s.routes, k ≠ r → k ∈ routes)
    (hopen : r ∈ routes → ∀ c, c.closed = false → (f c).closed = false) :
    Thinned n s { s.setCircuit r f with routes } where
  same := rfl
  sub := hroutes
  keep hn := hkeep n hn (Ne.symm hne)
  current := by
    show (s.setCircuit r f).circuits[n]? = _
    rw [getElem?_setCircuit]
    simp [hne]
  opens ho k hk := by
    obtain ⟨c, hc, hclosed⟩ := ho k (hroutes k hk)
    refine ⟨_, (getElem?_setCircuit s r k f).trans (by rw [hc]; rfl), ?_⟩
    split
    · next heq => exact hopen (heq ▸ hk) c hclosed
    · exact hclosed
  retired k c c' hc hc' hr := by
    have hc' : (s.setCircuit r f).circuits[k]? = some c' := hc'
    rw [getElem?_setCircuit, hc] at hc'
    cases hc'
    dsimp only
    split
    · exact hretired c hr
    · exact hr
  length := List.length_modify _ _ _

theorem thinned_destroyCircuit (hr : s.route ≠ some r) (hne : r ≠ n) :
    Thinned n s (s.destroyCircuit r) ∧ (s.IsOpen r → r ∉ (s.destroyCircuit r).routes) := by
  unfold destroyCircuit
  cases hc : s.circuits[r]? with
  | none =>
    refine ⟨.refl n s, fun ⟨c, hc', _⟩ => ?_⟩
    rw [hc] at hc'
    cases hc'
  | some c =>
    dsimp only
    split
    · next hclosed =>
      refine ⟨.refl n s, fun ⟨c', hc', hopen⟩ => ?_⟩
      rw [hc] at hc'
      cases hc'
      rw [hclosed] at hopen
      cases hopen
    · rw [destinationUnavailable_other (by exact hr)]
      refine ⟨thinned_setCircuit _ (fun c h => h) hne (fun k hk => (List.mem_filter.mp hk).1)
        (fun k hk hkr => List.mem_filter.mpr ⟨hk, by simpa using hkr⟩) (fun hmem => ?_),
        fun _ => by simp⟩
      simp at hmem

/-- After `retire` a circuit is out of the set or marked. -/
theorem thinned_retire (hr : s.route ≠ some r) (hne : r ≠ n) :
    Thinned n s (s.retire r) ∧ (r ∈ (s.retire r).routes → s.IsOpen r →
      ∀ c, (s.retire r).circuits[r]? = some c → c.retired = true) := by
  unfold retire
  cases hc : s.circuits[r]? with
  | none =>
    refine ⟨.refl n s, fun _ ⟨c, hc', _⟩ => ?_⟩
    rw [hc] at hc'
    cases hc'
  | some c =>
    dsimp only
    split
    · next hdone =>
      refine ⟨.refl n s, fun _ ⟨c', hc', hopen⟩ c'' hc'' => ?_⟩
      rw [hc] at hc' hc''
      cases hc'
      cases hc''
      exact hdone.resolve_left (by simp [hopen])
    · have hmark : Thinned n s (s.setCircuit r fun c => { c with retired := true }) :=
        thinned_setCircuit s.routes (fun c _ => rfl) hne (fun k hk => hk)
          (fun k hk _ => hk) (fun _ c h => h)
      have hmarked : ∀ c', (s.setCircuit r fun c => { c with retired := true }).circuits[r]? =
          some c' → c'.retired = true := by
        intro c' hc'
        rw [getElem?_setCircuit, hc] at hc'
        cases hc'
        simp
      rw [destinationUnavailable_other (by exact hr)]
      split
      · have hd := thinned_destroyCircuit
          (s := s.setCircuit r fun c => { c with retired := true }) hr hne
        refine ⟨hmark.trans hd.1, fun hmem ⟨c', hc', hopen⟩ => absurd hmem (hd.2 ?_)⟩
        rw [hc] at hc'
        cases hc'
        exact ⟨_, (getElem?_setCircuit _ _ _ _).trans (by rw [hc]; rfl), by simpa using hopen⟩
      · exact ⟨hmark, fun _ _ => hmarked⟩

/-! ## The loops -/

theorem Thinned.route (h : Thinned n s t) : t.route = s.route := by
  rw [h.same]

theorem thinned_destroyAll {rs : List Nat} (hroute : s.route = none) (hn : n ∉ rs)
    (ho : ∀ r ∈ s.routes, s.IsOpen r) :
    Thinned n s (rs.foldl destroyCircuit s) ∧ ∀ r ∈ rs, r ∉ (rs.foldl destroyCircuit s).routes := by
  induction rs generalizing s with
  | nil => exact ⟨.refl n s, fun r hr => absurd hr List.not_mem_nil⟩
  | cons p rs ih =>
    rw [List.mem_cons, not_or] at hn
    obtain ⟨hd, hp⟩ := thinned_destroyCircuit (s := s) (r := p) (by simp [hroute]) (Ne.symm hn.1)
    obtain ⟨hrest, hgone⟩ := ih (hd.route.trans hroute) hn.2 (hd.opens ho)
    refine ⟨hd.trans hrest, fun r hr => ?_⟩
    rcases List.mem_cons.mp hr with rfl | hr
    · intro hmem
      have hmem := hrest.sub r hmem
      exact hp (ho r (hd.sub r hmem)) hmem
    · exact hgone r hr

/-- `_clearServerRoute` closes every circuit of the set. -/
theorem clearServerRoute_eq (ho : ∀ r ∈ s.routes, s.IsOpen r) :
    ∃ circuits, s._clearServerRoute = { s with
      refreshTimer := false
      route := none
      republishAfter := false
      routes := []
      circuits } := by
  have hn : s.circuits.length ∉ s.routes := by
    intro hmem
    obtain ⟨c, hc, -⟩ := ho _ hmem
    exact absurd (List.getElem?_eq_some_iff.mp hc).1 (Nat.lt_irrefl _)
  obtain ⟨hthin, hgone⟩ := thinned_destroyAll
    (s := { s with refreshTimer := false, route := none, republishAfter := false }) rfl hn ho
  have hnil : s._clearServerRoute.routes = [] :=
    List.eq_nil_iff_forall_not_mem.mpr fun r hr => hgone r (hthin.sub r hr) hr
  refine ⟨s._clearServerRoute.circuits, hthin.same.trans ?_⟩
  rw [show (s.routes.foldl destroyCircuit _).routes = [] from hnil]
  rfl

theorem thinned_retireAll (rs : List Nat) (hroute : s.route = some n)
    (ho : ∀ r ∈ s.routes, s.IsOpen r) :
    let t := rs.foldl (fun s previous => if previous = n then s else s.retire previous) s
    Thinned n s t ∧ ∀ r ∈ rs, r ≠ n → r ∈ t.routes →
      ∀ c, t.circuits[r]? = some c → c.retired = true := by
  induction rs generalizing s with
  | nil => exact ⟨.refl n s, fun r hr => absurd hr List.not_mem_nil⟩
  | cons p rs ih =>
    simp only [List.foldl_cons]
    by_cases hp : p = n
    · subst hp
      rw [if_pos rfl]
      obtain ⟨hthin, hret⟩ := ih hroute ho
      exact ⟨hthin, fun r hr hne => hret r ((List.mem_cons.mp hr).resolve_left hne) hne⟩
    · rw [if_neg hp]
      obtain ⟨hd, hmark⟩ := thinned_retire (s := s) (r := p) (by simp [hroute, Ne.symm hp]) hp
      obtain ⟨hthin, hret⟩ := ih (hd.route.trans hroute) (hd.opens ho)
      refine ⟨hd.trans hthin, fun r hr hne hmem c hc => ?_⟩
      rcases List.mem_cons.mp hr with rfl | hr
      · -- `retire` marked it, and it stays marked.
        have hmem' := hthin.sub r hmem
        obtain ⟨c', hc', -⟩ := hd.opens ho r hmem'
        exact hthin.retired r c' c hc' hc (hmark hmem' (ho r (hd.sub r hmem')) c' hc')
      · exact hret r hr hne hmem c hc

/-! ## The invariant -/

structure Inv (s : PeerServer) : Prop where
  route : ∀ r, s.route = some r → r ∈ s.routes ∧
    ∃ c, s.circuits[r]? = some c ∧ c.closed = false ∧ c.retired = false
  timer : s.refreshTimer = true → s.route.isSome = true
  opens : ∀ r ∈ s.routes, s.IsOpen r
  single : s.listening = .waiting ∨ s.listening = .completed → ∀ r ∈ s.routes, ∀ c,
    s.circuits[r]? = some c → c.retired = false → s.route = some r
  idle : s.listening = .idle →
    s.keyPair = false ∧ s.publishing ≠ some .running ∧ s.routes = []
  waiting : s.listening = .waiting →
    s.publishing.isSome = true ∧ (s.publishing = some .running → s.route = none)
  live : s.Obliged → s.route.isSome = true ∨ s.publishing.isSome = true

theorem Inv.new : Inv new where
  route _ h := by cases h
  timer h := by cases h
  opens _ h := absurd h List.not_mem_nil
  single _ _ h := absurd h List.not_mem_nil
  idle _ := ⟨rfl, nofun, rfl⟩
  waiting h := by cases h
  live h := by cases h.1

theorem Inv.reachable (h : Inv s) : s.Reachable := by
  intro hob
  refine ⟨?_, h.single (.inr hob.1)⟩
  rcases h.live hob with hr | hp
  · obtain ⟨r, hr⟩ := Option.isSome_iff_exists.mp hr
    obtain ⟨-, c, hc, hclosed, hretired⟩ := h.route r hr
    exact .inl ⟨r, c, hr, hc, hclosed, hretired⟩
  · exact .inr (.inl hp)

/-- A publish that is started keeps the server live, whatever let it start. -/
theorem Inv.publish (h : Inv s) {suspended : Bool} {resuming : Nat} {refreshTimer : Bool}
    (ht : refreshTimer = true → s.refreshTimer = true) :
    Inv { s with suspended, resuming, refreshTimer }._publish := by
  unfold _publish
  split
  · next hp =>
    exact ⟨h.route, fun hr => h.timer (ht hr), h.opens, h.single, h.idle, h.waiting,
      fun _ => .inr hp⟩
  next hnone =>
  refine ⟨h.route, fun hr => h.timer (ht hr), h.opens, h.single, fun hl => ?_, fun hl => ?_,
    fun _ => .inr rfl⟩
  · obtain ⟨hkey, -, hroutes⟩ := h.idle hl
    have hkey : s.keyPair = false := hkey
    refine ⟨hkey, ?_, hroutes⟩
    simp [hkey]
  · exact absurd (h.waiting hl).1 hnone

/-- The invariant, but that the route may be `r`, which is marked. -/
structure Losing (r : Nat) (s : PeerServer) : Prop where
  route : ∀ k, s.route = some k → k ≠ r → k ∈ s.routes ∧
    ∃ c, s.circuits[k]? = some c ∧ c.closed = false ∧ c.retired = false
  timer : s.refreshTimer = true → s.route.isSome = true
  opens : ∀ r ∈ s.routes, s.IsOpen r
  single : s.listening = .waiting ∨ s.listening = .completed → ∀ r ∈ s.routes, ∀ c,
    s.circuits[r]? = some c → c.retired = false → s.route = some r
  idle : s.listening = .idle →
    s.keyPair = false ∧ s.publishing ≠ some .running ∧ s.routes = []
  waiting : s.listening = .waiting →
    s.publishing.isSome = true ∧ (s.publishing = some .running → ∀ k, s.route = some k → k = r)
  live : s.Obliged → s.route.isSome = true ∨ s.publishing.isSome = true
  gone : r ∈ s.routes → ∀ c, s.circuits[r]? = some c → c.retired = true

/-- A lost route is replaced by a publish, or by the repetition of the one in flight. -/
theorem Losing.unavailable (h : Losing r s) : Inv (s._destinationUnavailable r) := by
  unfold _destinationUnavailable
  split
  · next hr =>
    have hsingle : ∀ k ∈ s.routes, ∀ c, s.circuits[k]? = some c → c.retired = false →
        s.listening = .waiting ∨ s.listening = .completed → False := by
      intro k hk c hc hret hl
      obtain rfl : r = k := Option.some.inj (hr.symm.trans (h.single hl k hk c hc hret))
      rw [h.gone hk c hc] at hret
      cases hret
    -- Without the route, and before anything is started.
    have hrest : ∀ republish, (s.Obliged → s.publishing.isSome = true) →
        Inv { s with route := none, refreshTimer := false, republishAfter := republish } :=
      fun _ hlive => ⟨nofun, nofun, h.opens,
        fun hl k hk c hc hret => (hsingle k hk c hc hret hl).elim, h.idle,
        fun hl => ⟨(h.waiting hl).1, fun _ => rfl⟩, fun hob => .inr (hlive hob)⟩
    dsimp only
    split
    · next hable =>
      refine hrest s.republishAfter fun hob => ?_
      have hable : s.able = false := hable
      rw [hob.2] at hable
      cases hable
    · split
      · next hp => exact hrest true fun _ => hp
      · next hnone =>
        have hnone : s.publishing = none := by simpa using hnone
        unfold _publish
        rw [if_neg (by simp [hnone])]
        refine ⟨nofun, nofun, h.opens,
          fun hl k hk c hc hret => (hsingle k hk c hc hret hl).elim, fun hl => ?_, fun hl => ?_,
          fun _ => .inr rfl⟩
        · obtain ⟨hkey, -, hroutes⟩ := h.idle hl
          have hkey : s.keyPair = false := hkey
          refine ⟨hkey, ?_, hroutes⟩
          simp [hkey]
        · have := (h.waiting hl).1
          rw [hnone] at this
          cases this
  · next hr =>
    have hne : ∀ k, s.route = some k → k ≠ r := by
      rintro k hk rfl
      exact hr hk
    refine ⟨fun k hk => h.route k hk (hne k hk), h.timer, h.opens, h.single, h.idle, fun hl => ?_,
      h.live⟩
    obtain ⟨hp, hroute⟩ := h.waiting hl
    refine ⟨hp, fun hrun => Option.eq_none_iff_forall_ne_some.mpr fun k hk => ?_⟩
    exact hne k hk (hroute hrun k hk)

theorem Inv.losing (h : Inv s) {f : Circuit → Circuit} {routes : List Nat}
    (hretired : ∀ c, c.retired = true → (f c).retired = true)
    (hroutes : ∀ k, k ∈ routes → k ∈ s.routes) (hkeep : ∀ k ∈ s.routes, k ≠ r → k ∈ routes)
    (hopen : r ∈ routes → ∀ c, (f c).closed = c.closed ∧ (f c).retired = true) :
    Losing r { s.setCircuit r f with routes } := by
  have hget : ∀ k, k ≠ r → (s.setCircuit r f).circuits[k]? = s.circuits[k]? := by
    intro k hk
    rw [getElem?_setCircuit]
    simp [Ne.symm hk]
  refine ⟨fun k hk hkr => ?_, h.timer, fun k hk => ?_, fun hl k hk c hc hret => ?_, fun hl => ?_,
    fun hl => ⟨(h.waiting hl).1, fun hrun k hk => ?_⟩, h.live, fun hr c hc => ?_⟩
  · obtain ⟨hmem, hc⟩ := h.route k hk
    exact ⟨hkeep k hmem hkr, (hget k hkr).symm ▸ hc⟩
  · obtain ⟨c, hc, hclosed⟩ := h.opens k (hroutes k hk)
    refine ⟨_, (getElem?_setCircuit s r k f).trans (by rw [hc]; rfl), ?_⟩
    split
    · next heq => exact (hopen (heq ▸ hk) c).1.trans hclosed
    · exact hclosed
  · have hc : (s.setCircuit r f).circuits[k]? = some c := hc
    rw [getElem?_setCircuit] at hc
    obtain ⟨c', hc', rfl⟩ := Option.map_eq_some_iff.mp hc
    refine h.single hl k (hroutes k hk) c' hc' ?_
    split at hret
    · next heq =>
      cases hr : c'.retired with
      | false => rfl
      | true =>
        rw [hretired c' hr] at hret
        cases hret
    · exact hret
  · obtain ⟨hkey, hp, hnil⟩ := h.idle hl
    refine ⟨hkey, hp, List.eq_nil_iff_forall_not_mem.mpr fun k hk => ?_⟩
    have := hroutes k hk
    rw [hnil] at this
    exact List.not_mem_nil this
  · have hk : s.route = some k := hk
    rw [(h.waiting hl).2 hrun] at hk
    cases hk
  · have hc : (s.setCircuit r f).circuits[r]? = some c := hc
    rw [getElem?_setCircuit] at hc
    obtain ⟨c', -, rfl⟩ := Option.map_eq_some_iff.mp hc
    rw [if_pos rfl]
    exact (hopen hr c').2

theorem Inv.destroyCircuit (h : Inv s) (r : Nat) : Inv (s.destroyCircuit r) := by
  unfold PeerServer.destroyCircuit
  split
  · exact h
  · split
    · exact h
    · refine Losing.unavailable (h.losing ?_ ?_ ?_ ?_)
      · exact fun c hc => hc
      · exact fun k hk => (List.mem_filter.mp hk).1
      · exact fun k hk hkr => List.mem_filter.mpr ⟨hk, by simpa using hkr⟩
      · intro hmem
        simp at hmem

theorem Inv.retire (h : Inv s) (r : Nat) : Inv (s.retire r) := by
  unfold PeerServer.retire
  split
  · exact h
  · split
    · exact h
    · have hl : Losing r (s.setCircuit r fun c => { c with retired := true }) :=
        h.losing (fun _ _ => rfl) (fun k hk => hk) (fun k hk _ => hk) fun _ c => ⟨rfl, rfl⟩
      dsimp only
      split
      · exact hl.unavailable.destroyCircuit r
      · exact hl.unavailable

theorem Inv.clear (ho : ∀ r ∈ s.routes, s.IsOpen r)
    (hidle : s.listening = .idle → s.keyPair = false ∧ s.publishing ≠ some .running)
    (hwaiting : s.listening = .waiting → s.publishing.isSome = true)
    (hlive : s.Obliged → s.publishing.isSome = true) : Inv s._clearServerRoute := by
  obtain ⟨circuits, heq⟩ := clearServerRoute_eq ho
  rw [heq]
  exact ⟨nofun, nofun, fun r hr => absurd hr List.not_mem_nil,
    fun _ r hr => absurd hr List.not_mem_nil, fun hl => ⟨(hidle hl).1, (hidle hl).2, rfl⟩,
    fun hl => ⟨hwaiting hl, fun _ => rfl⟩, fun hob => .inr (hlive hob)⟩

/-! ## Installing a route -/

theorem Inv.lt_length (h : Inv s) (hr : r ∈ s.routes) : r < s.circuits.length := by
  obtain ⟨c, hc, -⟩ := h.opens r hr
  exact (List.getElem?_eq_some_iff.mp hc).1

theorem Inv.isOpen_construct (h : Inv s) : ∀ r ∈ s.construct.routes, s.construct.IsOpen r := by
  intro r hr
  rcases List.mem_append.mp hr with hr | hr
  · obtain ⟨c, hc, hclosed⟩ := h.opens r hr
    exact ⟨c, (List.getElem?_append_left (h.lt_length hr)).trans hc, hclosed⟩
  · obtain rfl := List.mem_singleton.mp hr
    exact ⟨_, List.getElem?_concat_length, rfl⟩

theorem Inv.startCloses (h : Inv s) (hrun : s.publishing = some .running)
    (hnone : s.listening = .completed → s.route = none) :
    Inv (s.construct.destroyCircuit s.circuits.length) := by
  have hroute : s.listening = .waiting ∨ s.listening = .completed → s.route = none := by
    rintro (hl | hl)
    · exact (h.waiting hl).2 hrun
    · exact hnone hl
  have hget : ∀ {k c}, (s.circuits ++ [⟨0, false, false⟩])[k]? = some c → k < s.circuits.length →
      s.circuits[k]? = some c := fun hc hlt => (List.getElem?_append_left hlt).symm.trans hc
  unfold PeerServer.destroyCircuit
  rw [show s.construct.circuits[s.circuits.length]? = some ⟨0, false, false⟩ from
    List.getElem?_concat_length]
  simp only [Bool.false_eq_true, if_false]
  have hmem : ∀ {k}, k ∈ s.construct.routes.filter (· ≠ s.circuits.length) → k ∈ s.routes := by
    intro k hk
    obtain ⟨hk, hne⟩ := List.mem_filter.mp hk
    exact (List.mem_append.mp hk).resolve_right fun he => by simp [List.mem_singleton.mp he] at hne
  have hcircuit : ∀ k, k ∈ s.routes →
      (s.construct.setCircuit s.circuits.length fun c =>
        { c with closed := true, streams := 0 }).circuits[k]? = s.circuits[k]? := by
    intro k hk
    have hlt := h.lt_length hk
    rw [getElem?_setCircuit, show s.construct.circuits[k]? = s.circuits[k]? from
      List.getElem?_append_left hlt]
    simp [show s.circuits.length ≠ k by omega]
  refine Losing.unavailable ⟨fun k hk hkr => ?_, nofun, fun k hk => ?_, fun hl k hk c hc hret => ?_,
    fun hl => ?_, fun hl => ⟨?_, fun _ k hk => ?_⟩, fun _ => .inl rfl, fun hr => ?_⟩
  · exact absurd (Option.some.inj hk).symm hkr
  · obtain ⟨c, hc, hclosed⟩ := h.opens k (hmem hk)
    exact ⟨c, (hcircuit k (hmem hk)).trans hc, hclosed⟩
  · have hc := (hcircuit k (hmem hk)).symm.trans hc
    have := h.single hl k (hmem hk) c hc hret
    rw [hroute hl] at this
    cases this
  · exact absurd hrun (h.idle hl).2.1
  · exact (h.waiting hl).1
  · exact (Option.some.inj hk).symm
  · simp at hr

theorem Inv.install (h : Inv s) {startCloses : Bool} (hm : s.Meets (.install startCloses)) :
    Inv (s.install startCloses) := by
  unfold PeerServer.install
  split
  · exact h
  next hgo =>
  rw [not_or, not_not] at hgo
  obtain ⟨hrun, hable⟩ := hgo
  have hable : s.able = true := by simpa using hable
  dsimp only
  split
  · next hs => exact h.startCloses hrun fun hl => hm hs hrun hable hl
  · obtain ⟨hthin, hret⟩ := thinned_retireAll (s := s.construct) s.construct.routes rfl
      h.isOpen_construct
    have hroute := hthin.route
    have hlisten := congrArg PeerServer.listening hthin.same
    refine ⟨fun r hr => ?_, fun _ => ?_, hthin.opens h.isOpen_construct,
      fun _ k hk c hc hretired => ?_, fun hl => ?_, fun hl => ⟨rfl, nofun⟩, fun _ => .inr rfl⟩
    · obtain rfl : s.circuits.length = r := Option.some.inj (hroute.symm.trans hr)
      exact ⟨hthin.keep (by simp [PeerServer.construct]), ⟨0, false, false⟩,
        hthin.current.trans List.getElem?_concat_length, rfl, rfl⟩
    · exact congrArg Option.isSome hroute
    · by_cases hkn : k = s.circuits.length
      · rw [hkn]
        exact hroute
      · rw [hret k (hthin.sub k hk) hkn hk c hc] at hretired
        cases hretired
    · exact absurd hrun (h.idle (hlisten.symm.trans hl)).2.1

/-! ## The end of a publish -/

theorem publish_of_none (h : s.publishing = none) : s._publish = { s with
    publishing := some (if s.able = false ∨ s.keyPair = false then .settled false else .running) } :=
  if_neg (by simp [h])

theorem Inv.relabel (h : Inv s) {publishing : Option Publish} {republishAfter : Bool}
    {listening : Listen} (hne : listening ≠ .waiting)
    (hsame : listening = s.listening ∨ s.listening = .waiting ∧ listening ≠ .idle)
    (hidle : listening = .idle → publishing ≠ some .running)
    (hlive : listening = .completed → s.able = true →
      s.route.isSome = true ∨ publishing.isSome = true) :
    Inv { s with publishing, republishAfter, listening } := by
  refine ⟨h.route, h.timer, h.opens, fun hl => h.single ?_, fun hl => ?_, fun hl => absurd hl hne,
    fun hob => hlive hob.1 hob.2⟩
  · rcases hsame with rfl | ⟨hw, -⟩
    · exact hl
    · exact .inl hw
  · have hl : listening = .idle := hl
    rcases hsame with rfl | ⟨-, hni⟩
    · obtain ⟨hkey, -, hroutes⟩ := h.idle hl
      exact ⟨hkey, hidle hl, hroutes⟩
    · exact absurd hl hni

theorem Inv.finish (h : Inv s) (hm : s.Meets .finish) : Inv s.finish := by
  unfold PeerServer.finish
  split
  · next ok hp =>
    have hkeep := fun hob hable => hm ok hp hob hable
    generalize hl : (if s.listening = .waiting then (if ok then Listen.completed else .thrown)
      else s.listening) = listening
    have hne : listening ≠ .waiting := by
      subst hl
      split
      · split <;> decide
      · assumption
    have hsame : listening = s.listening ∨ s.listening = .waiting ∧ listening ≠ .idle := by
      subst hl
      split
      · next hw => exact .inr ⟨hw, by split <;> decide⟩
      · exact .inl rfl
    have hdone : listening = .completed →
        s.listening = .completed ∨ s.listening = .waiting ∧ ok = true := by
      subst hl
      split
      · next hw =>
        cases ok with
        | true => exact fun _ => .inr ⟨hw, rfl⟩
        | false => nofun
      · exact .inl
    dsimp only
    split
    · next hretry =>
      rw [publish_of_none rfl]
      refine h.relabel hne hsame (fun hi => ?_) fun _ _ => .inr rfl
      have hkey : s.keyPair = false := by
        rcases hsame with rfl | ⟨-, hni⟩
        · exact (h.idle hi).1
        · exact absurd hi hni
      simp [hkey]
    · next hretry =>
      refine h.relabel hne hsame (fun _ => nofun) fun hc hable => ?_
      rcases hkeep (hdone hc) hable with hroute | hre
      · exact .inl hroute
      · -- Without a route the publish would have been repeated.
        cases hr : s.route with
        | some r => exact .inl rfl
        | none =>
          refine absurd ?_ hretry
          rw [Bool.and_eq_true]
          exact ⟨by simp [hre, hr], hable⟩
  · exact h

/-! ## The steps -/

theorem Inv.clearAble (h : Inv s) {destroyed closed suspended registered : Bool}
    (hflag : destroyed = true ∨ closed = true ∨ suspended = true) :
    Inv { s with destroyed, closed, suspended, registered }._clearServerRoute := by
  refine Inv.clear h.opens (fun hl => ⟨(h.idle hl).1, (h.idle hl).2.1⟩)
    (fun hl => (h.waiting hl).1) fun hob => ?_
  have := hob.2
  rcases hflag with rfl | rfl | rfl
  · simp [able] at this
  · simp [able] at this
  · simp [able] at this

theorem Inv.setFlag (h : Inv s) {destroyed controllerSuspended : Bool} {suspending : Nat}
    (hflag : destroyed = true ∨ controllerSuspended = true) :
    Inv { s with destroyed, controllerSuspended, suspending } := by
  refine ⟨h.route, h.timer, h.opens, h.single, h.idle, h.waiting, fun hob => ?_⟩
  have := hob.2
  rcases hflag with rfl | rfl
  · simp [able] at this
  · simp [able] at this

theorem Inv.setCircuit (h : Inv s) {f : Circuit → Circuit}
    (hf : ∀ c, (f c).closed = c.closed ∧ (f c).retired = c.retired) : Inv (s.setCircuit r f) := by
  have hget : ∀ {k : Nat} {c : Circuit}, s.circuits[k]? = some c → ∃ c', (s.setCircuit r f).circuits[k]? = some c' ∧
      c'.closed = c.closed ∧ c'.retired = c.retired := by
    intro k c hc
    refine ⟨_, (getElem?_setCircuit s r k f).trans (by rw [hc]; rfl), ?_⟩
    split
    · exact hf c
    · exact ⟨rfl, rfl⟩
  refine ⟨fun k hk => ?_, h.timer, fun k hk => ?_, fun hl k hk c hc hret => ?_, h.idle, h.waiting,
    h.live⟩
  · obtain ⟨hmem, c, hc, hclosed, hretired⟩ := h.route k hk
    obtain ⟨c', hc', h₁, h₂⟩ := hget hc
    exact ⟨hmem, c', hc', h₁.trans hclosed, h₂.trans hretired⟩
  · obtain ⟨c, hc, hclosed⟩ := h.opens k hk
    obtain ⟨c', hc', h₁, -⟩ := hget hc
    exact ⟨c', hc', h₁.trans hclosed⟩
  · obtain ⟨c', hc', -⟩ := h.opens k hk
    obtain ⟨c'', hc'', -, h₂⟩ := hget hc'
    cases hc''.symm.trans hc
    exact h.single hl k hk c' hc' (h₂.symm.trans hret)

theorem Inv.listen (h : Inv s) : Inv s.listen := by
  unfold PeerServer.listen
  split
  · exact h
  next hidle =>
  have hidle : s.listening = .idle := by simpa using hidle
  obtain ⟨hkey, hrun, hroutes⟩ := h.idle hidle
  split
  · exact ⟨h.route, h.timer, h.opens, fun hl => by simp at hl, nofun, nofun, fun hob => by
      cases hob.1⟩
  · have hsingle : ∀ r ∈ s.routes, ∀ c, s.circuits[r]? = some c → c.retired = false →
        s.route = some r := by
      intro r hr
      rw [hroutes] at hr
      exact absurd hr List.not_mem_nil
    have hroute : s.route = none := by
      refine Option.eq_none_iff_forall_ne_some.mpr fun r hr => ?_
      have := (h.route r hr).1
      rw [hroutes] at this
      exact List.not_mem_nil this
    unfold _publish
    split
    · next hp =>
      exact ⟨h.route, h.timer, h.opens, fun _ => hsingle, nofun, fun _ => ⟨hp, fun _ => hroute⟩,
        fun hob => by cases hob.1⟩
    · exact ⟨h.route, h.timer, h.opens, fun _ => hsingle, nofun, fun _ => ⟨rfl, fun _ => hroute⟩,
        fun _ => .inr rfl⟩

theorem Inv.listenThrew (h : Inv s) : Inv s.listenThrew := by
  unfold PeerServer.listenThrew
  split
  · next ht =>
    have hl : s.listening = .thrown := ht.1
    obtain ⟨circuits, heq⟩ := clearServerRoute_eq (s := { s with registered := false }) h.opens
    rw [heq]
    refine ⟨nofun, nofun, fun r hr => absurd hr List.not_mem_nil,
      fun _ r hr => absurd hr List.not_mem_nil, fun hi => ?_, fun hw => ?_, fun hob => ?_⟩
    · have hi : s.listening = .idle := hi
      rw [hl] at hi
      cases hi
    · have hw : s.listening = .waiting := hw
      rw [hl] at hw
      cases hw
    · have hc : s.listening = .completed := hob.1
      rw [hl] at hc
      cases hc
  · exact h

theorem Inv.streamClosed (h : Inv s) (r : Nat) : Inv (s.streamClosed r) := by
  unfold PeerServer.streamClosed
  split
  · exact h
  · split
    · exact h
    · have hs : Inv (s.setCircuit r fun c => { c with streams := c.streams - 1 }) :=
        h.setCircuit fun _ => ⟨rfl, rfl⟩
      dsimp only
      split
      · exact hs.destroyCircuit r
      · exact hs

theorem Inv.step (h : Inv s) {event : Event} (hm : s.Meets event) : Inv (s.step event) := by
  cases event with
  | listen => exact h.listen
  | listenThrew => exact h.listenThrew
  | refresh =>
    unfold PeerServer.step
    dsimp only
    split
    · exact h
    · exact h.publish fun ht => ht
  | refreshFires =>
    unfold PeerServer.step
    dsimp only
    split
    · exact h
    split
    · exact ⟨h.route, nofun, h.opens, h.single, h.idle, h.waiting, h.live⟩
    · exact h.publish nofun
  | publishThrows =>
    unfold PeerServer.step
    dsimp only
    split
    · exact ⟨h.route, h.timer, h.opens, h.single, fun hl => ⟨(h.idle hl).1, nofun, (h.idle hl).2.2⟩,
        fun _ => ⟨rfl, nofun⟩, fun _ => .inr rfl⟩
    · exact h
  | install startCloses => exact h.install hm
  | finish => exact h.finish hm
  | streamOpened r =>
    refine h.setCircuit fun c => ?_
    split
    · exact ⟨rfl, rfl⟩
    · exact ⟨rfl, rfl⟩
  | streamClosed r => exact h.streamClosed r
  | routeClosed r => exact h.destroyCircuit r
  | routeExpired r => exact h.retire r
  | suspend => exact h.clearAble (.inr (.inr rfl))
  | resume =>
    unfold PeerServer.step
    dsimp only
    split
    · exact h
    · exact h.publish fun ht => ht
  | close =>
    unfold PeerServer.step
    dsimp only
    split
    · exact h
    · exact h.clearAble (.inr (.inl rfl))
  | controllerSuspend =>
    unfold PeerServer.step
    dsimp only
    split
    · exact h
    · exact h.setFlag (.inr rfl)
  | suspendEnds =>
    unfold PeerServer.step
    dsimp only
    split
    · exact h
    next hne =>
    split
    · next hreg =>
      exact Inv.clear (s := { s with suspending := s.suspending - 1 }) h.opens
        (fun hl => ⟨(h.idle hl).1, (h.idle hl).2.1⟩) (fun hl => (h.waiting hl).1)
        fun hob => hm hne hreg hob
    · exact ⟨h.route, h.timer, h.opens, h.single, h.idle, h.waiting, h.live⟩
  | controllerResume =>
    unfold PeerServer.step
    dsimp only
    split
    · exact h
    next hgo =>
    rw [not_or] at hgo
    refine ⟨h.route, h.timer, h.opens, h.single, h.idle, h.waiting, fun hob => ?_⟩
    have hable := hob.2
    simp only [able, Bool.and_eq_true, Bool.not_eq_true'] at hable
    exact hm (by simpa using hgo.1) (by simpa using hgo.2) hable.1.2 hable.2 hob.1
  | resumePublishes =>
    unfold PeerServer.step
    dsimp only
    split
    · exact h
    split
    · exact h.publish fun ht => ht
    · exact ⟨h.route, h.timer, h.opens, h.single, h.idle, h.waiting, h.live⟩
  | controllerDestroy =>
    unfold PeerServer.step
    dsimp only
    split
    · exact h
    split
    · exact h.clearAble (.inl rfl)
    · exact h.setFlag (.inl rfl)

/-! ## The steps that leave a server without a route -/

theorem not_reachable (hob : s.Obliged) (hroute : s.route = none)
    (hp : s.publishing.isSome = false) (ht : s.refreshTimer = false) : ¬ s.Reachable := by
  intro h
  rcases (h hob).1 with ⟨r, -, hr, -⟩ | hs | hs
  · rw [hroute] at hr
    cases hr
  · rw [hp] at hs
    cases hs
  · rw [ht] at hs
    cases hs

theorem Inv.timer_off (h : Inv s) (hroute : s.route = none) : s.refreshTimer = false := by
  cases ht : s.refreshTimer with
  | false => rfl
  | true =>
    have := h.timer ht
    rw [hroute] at this
    cases this

theorem Inv.not_reachable_finish (h : Inv s) (hm : ¬ s.Meets .finish) : ¬ s.finish.Reachable := by
  simp only [Meets, not_forall, not_or] at hm
  obtain ⟨ok, hp, hl, hable, hroute, hre⟩ := hm
  have hroute : s.route = none := by simpa using hroute
  have hre : s.republishAfter = false := by simpa using hre
  have hl' : (if s.listening = .waiting then (if ok then Listen.completed else .thrown)
      else s.listening) = .completed := by
    rcases hl with hl | ⟨hl, hok⟩
    · rw [if_neg (by rw [hl]; decide), hl]
    · rw [if_pos hl, if_pos hok]
  unfold PeerServer.finish
  rw [hp]
  dsimp only
  rw [if_neg (by simp [hre]), hl']
  exact not_reachable ⟨rfl, hable⟩ hroute rfl (h.timer_off hroute)

theorem Inv.not_reachable_install (h : Inv s) {startCloses : Bool}
    (hm : ¬ s.Meets (.install startCloses)) : ¬ (s.install startCloses).Reachable := by
  simp only [Meets, Classical.not_imp] at hm
  obtain ⟨rfl, hrun, hable, hl, hroute⟩ := hm
  obtain ⟨r, hr⟩ := Option.ne_none_iff_exists'.mp hroute
  obtain ⟨hmem, c, hc, hclosed, hretired⟩ := h.route r hr
  have hlt := h.lt_length hmem
  have hstep : s.install true = { s.construct.setCircuit s.circuits.length fun c =>
      { c with closed := true, streams := 0 } with
      routes := s.construct.routes.filter (· ≠ s.circuits.length)
      route := none
      republishAfter := true } := by
    unfold PeerServer.install
    rw [if_neg (by simp [hrun, hable])]
    simp only [if_true]
    unfold PeerServer.destroyCircuit
    rw [show s.construct.circuits[s.circuits.length]? = some ⟨0, false, false⟩ from
      List.getElem?_concat_length]
    simp only [Bool.false_eq_true, if_false]
    have hp : s.publishing.isSome = true := by rw [hrun]; rfl
    refine (if_pos rfl).trans ?_
    refine (if_neg (show ¬ s.able = false by simp [hable])).trans ?_
    exact if_pos hp
  rw [hstep]
  intro hreach
  have hget : (s.construct.setCircuit s.circuits.length fun c =>
      { c with closed := true, streams := 0 }).circuits[r]? = some c := by
    rw [getElem?_setCircuit, show s.construct.circuits[r]? = s.circuits[r]? from
      List.getElem?_append_left hlt, hc]
    simp [show s.circuits.length ≠ r by omega]
  have hin : r ∈ s.construct.routes.filter (· ≠ s.circuits.length) :=
    List.mem_filter.mpr ⟨List.mem_append_left _ hmem, by simp [show r ≠ s.circuits.length by omega]⟩
  have := (hreach ⟨hl, hable⟩).2 r hin c hget hretired
  cases this

theorem Inv.not_reachable_step (h : Inv s) {event : Event} (hm : ¬ s.Meets event) :
    ¬ (s.step event).Reachable := by
  cases event with
  | finish => exact h.not_reachable_finish hm
  | install startCloses => exact h.not_reachable_install hm
  | controllerResume =>
    simp only [Meets, Classical.not_imp, not_or] at hm
    obtain ⟨hd, hs, hc, hsus, hl, hroute, hp⟩ := hm
    have hroute : s.route = none := by simpa using hroute
    unfold PeerServer.step
    dsimp only
    rw [if_neg (by simp [hd, hs])]
    exact not_reachable ⟨hl, by simp [able, hd, hc, hsus]⟩ hroute (by simpa using hp)
      (h.timer_off hroute)
  | suspendEnds =>
    simp only [Meets, Classical.not_imp] at hm
    obtain ⟨hne, hreg, hob, hp⟩ := hm
    unfold PeerServer.step
    dsimp only
    rw [if_neg hne, if_pos hreg]
    obtain ⟨circuits, heq⟩ :=
      clearServerRoute_eq (s := { s with suspending := s.suspending - 1 }) h.opens
    rw [heq]
    exact not_reachable hob rfl (by simpa using hp) rfl
  | listen => exact absurd trivial hm
  | listenThrew => exact absurd trivial hm
  | refresh => exact absurd trivial hm
  | refreshFires => exact absurd trivial hm
  | publishThrows => exact absurd trivial hm
  | streamOpened r => exact absurd trivial hm
  | streamClosed r => exact absurd trivial hm
  | routeClosed r => exact absurd trivial hm
  | routeExpired r => exact absurd trivial hm
  | suspend => exact absurd trivial hm
  | resume => exact absurd trivial hm
  | close => exact absurd trivial hm
  | controllerSuspend => exact absurd trivial hm
  | resumePublishes => exact absurd trivial hm
  | controllerDestroy => exact absurd trivial hm

/-- A run keeps a listening server reachable in every state if and only if its steps meet the
condition. -/
theorem reachable_iff (events : List Event) :
    AllGood step Reachable new events ↔ AllMeet step Meets new events :=
  allGood_iff_allMeet (I := Inv) .new (fun _ _ h hm => h.step hm) (fun _ h => h.reachable)
    (fun _ _ h hm => h.not_reachable_step hm) events

/-- The route of a listening server closes and the publish that follows fails: no route, no
publish and no timer. Likewise a new circuit that closes inside `start` leaves the older one
in use, and without being the route; a `resume` of the controller overtakes its `suspend`,
which then closes the new route. -/
theorem listener_lost :
    ¬ (run new [.listen, .install false, .finish, .routeClosed 0, .publishThrows,
      .finish]).Reachable ∧
    ¬ (run new [.listen, .install false, .finish, .refreshFires, .install true]).Reachable ∧
    ¬ (run new [.listen, .install false, .finish, .controllerSuspend, .controllerResume,
      .resumePublishes, .install false, .finish, .suspendEnds]).Reachable := by
  refine ⟨fun h => ?_, fun h => ?_, fun h => ?_⟩
  · exact not_reachable (s := run _ _) ⟨by decide +kernel, by decide +kernel⟩ (by decide +kernel)
      (by decide +kernel) (by decide +kernel) h
  · have := (h ⟨by decide +kernel, by decide +kernel⟩).2 0 (by decide +kernel) ⟨0, false, false⟩
      (by decide +kernel) rfl
    revert this
    decide +kernel
  · exact not_reachable (s := run _ _) ⟨by decide +kernel, by decide +kernel⟩ (by decide +kernel)
      (by decide +kernel) (by decide +kernel) h

end PeerServer

end HyperDht.Private.Publishing
