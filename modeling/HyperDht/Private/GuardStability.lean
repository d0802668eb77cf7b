import HyperDht.Lib.Runs
import HyperDht.Private.GuardMoves

/-!
# Pinned guards and destinations

The pinned guards of a source, their order, their flags and their place among the unreachable
relays are the same whatever destinations it contacts, and every first relay is one of them
(`guards_stable`), as long as no call asks for the key of a pinned guard and the guards start
unflagged. A call that asks for the key of a guard refuses to dial it and then counts the refusal
as a failure of the guard (`not_guards_stable`).
-/

namespace HyperDht.Private.SourceRoute

namespace SourceController

/-! ## What is compared, and under which conditions -/

/-- The pinned guards in order: key, flag, and whether the key is listed as unreachable. -/
def pinned (s : SourceController) : List (Bytes × Bool × Bool) :=
  s.sourceGuards.candidates.filterMap fun guard => s.heap[guard]?.map fun g =>
    (g.publicKey, g.unreachable, s.unreachableRelays.has g.publicKey)

def firstRelay (s : SourceController) (i : Nat) : Option Bytes := (s.phase? i).bind (·.firstRelay)

/-- The first relay that an event reports out of reach. -/
def failedDial (s : SourceController) : Event → Option Bytes
  | .continues i (.dialed .failed _) =>
    match s.phase? i with
    | some (.dialing _ first _ _) => some first
    | _ => none
  | _ => none

/-- The relay directory that an event brings to a call that waits for it. -/
def directory (s : SourceController) : Event → Option (List Bytes × Nat)
  | .continues i (.discovered (some relays) now) =>
    match s.phase? i with
    | some .discovering => some (relays, now)
    | _ => none
  | _ => none

/-- The directories that a controller without guards gets: the first of them with relays pins
its guards. -/
def directories (k : Suite) : SourceController → List Event → List (List Bytes × Nat)
  | _, [] => []
  | s, e :: events =>
    (if s.sourceGuards.current.isNone then (s.directory e).toList else []) ++
      directories k (s.step k e) events

/-- Pinned guards are on the heap, and no call is in progress. -/
structure Idle (s : SourceController) : Prop where
  there : ∀ guard ∈ s.sourceGuards.candidates, ∃ g, s.heap[guard]? = some g ∧ g.ephemeral = false
  sessions : s.sessions = []
  direct : s.directDestinationKeys = .empty

/-- No pinned guard is flagged or listed as unreachable. -/
def Unflagged (s : SourceController) : Prop := ∀ g ∈ s.pinned, g.2 = (false, false)

/-- The dials of pinned guards reach them, and the guards do not expire. -/
def Reachable (s : SourceController) (e : Event) : Prop :=
  (∀ first ∈ s.failedDial e, first ∉ s.pinnedKeys) ∧
    ∀ found ∈ s.directory e, s.sourceGuards.current.isSome → found.2 < s.sourceGuards.rotateAt

instance (s : SourceController) (e : Event) : Decidable (Reachable s e) := inferInstanceAs (Decidable (_ ∧ _))

/-- No call asks for the key of a guard while that is pinned. -/
def OtherDestination (s : SourceController) (e : Event) : Prop :=
  (∀ destination ∈ asksFor e, destination ∉ s.pinnedKeys) ∧
    ∀ found ∈ s.directory e, s.sourceGuards.current = none →
      ∀ publicKey ∈ pickGuards [] (liveRelays s.unreachableRelays found.1 4 found.2).1,
        s.directDestinationKeys.get? publicKey = none

instance (s : SourceController) (e : Event) : Decidable (OtherDestination s e) :=
  inferInstanceAs (Decidable (_ ∧ _))

/-! ## The relays of a directory -/

/-- The relays `_liveRelays` gives are not listed as unreachable. -/
theorem liveRelays_mem {unreachable : JsMap Bytes Nat} {relays : List Bytes} {minCount now : Nat}
    {key : Bytes} (h : key ∈ (liveRelays unreachable relays minCount now).1) :
    (liveRelays unreachable relays minCount now).2.get? key = none := by
  unfold liveRelays at h ⊢
  dsimp only at h ⊢
  split
  · next hlive =>
    rw [if_pos hlive] at h
    simpa [JsMap.has] using (List.mem_filter.mp h).2
  · rfl

theorem mem_pickGuards {picked relays : List Bytes} {key : Bytes}
    (h : key ∈ pickGuards picked relays) : key ∈ picked ∨ key ∈ relays := by
  induction relays generalizing picked with
  | nil => exact .inl h
  | cons relay relays ih =>
    unfold pickGuards at h
    split at h
    · exact (ih h).imp_right (List.mem_cons_of_mem _)
    · split at h
      · rcases List.mem_append.mp h with hold | hnew
        · exact .inl hold
        · exact .inr (List.mem_singleton.mp hnew ▸ List.mem_cons_self)
      · rcases ih h with hpicked | hrest
        · rcases List.mem_append.mp hpicked with hold | hnew
          · exact .inl hold
          · exact .inr (List.mem_singleton.mp hnew ▸ List.mem_cons_self)
        · exact .inr (List.mem_cons_of_mem _ hrest)

theorem pickGuards_ne_nil {picked : List Bytes} (h : picked ≠ []) (relays : List Bytes) :
    pickGuards picked relays ≠ [] := by
  induction relays generalizing picked with
  | nil => exact h
  | cons relay relays ih =>
    unfold pickGuards
    split
    · exact ih h
    · split
      · simp
      · exact ih (by simp)

theorem pickGuards_eq_nil {relays : List Bytes} (h : pickGuards [] relays = []) : relays = [] := by
  cases relays with
  | nil => rfl
  | cons relay relays =>
    unfold pickGuards at h
    rw [if_neg (by simp), if_neg (by decide)] at h
    exact absurd h (pickGuards_ne_nil (by simp) relays)

/-! ## Steps -/

section Stable

variable {s s₀ t : SourceController} {mine : Nat → Prop}

/-- The guards pinned in `s₀` are still pinned, not all of them are flagged, nobody asks for one, and
each of the calls that `mine` names is at work on one of them. -/
structure Stable (s₀ : SourceController) (mine : Nat → Prop) (s : SourceController) : Prop where
  origin : s₀.There
  since : Framed s₀ s
  up : s.sourceGuards.candidates.all s.isDown = false
  going : Going s s₀.pinnedKeys mine s

theorem Stable.there (h : Stable s₀ mine s) : s.There := h.since.there h.origin

theorem Stable.pinnedKeys (h : Stable s₀ mine s) : s.pinnedKeys = s₀.pinnedKeys :=
  h.since.pinnedKeys h.origin

theorem Stable.current (h : Stable s₀ mine s) : s.sourceGuards.current.isSome = true := by
  cases hc : s.sourceGuards.current with
  | none =>
    have := h.up
    unfold PinnedGuards.candidates at this
    rw [hc] at this
    cases this
  | some current => rfl

theorem Stable.goes {s' : SourceController} (h : Stable s₀ mine s) (hf : Framed s t)
    (hs : t.sessions = s.sessions) (hd : t.directDestinationKeys = s.directDestinationKeys)
    (hgo : Going t s₀.pinnedKeys mine t → Going t s₀.pinnedKeys mine s') : Stable s₀ mine s' := by
  have hg := hgo (h.going.move h.there hf hs hd)
  exact ⟨h.origin, h.since.trans h.origin (hf.trans h.there hg.framed), hg.framed.up (hf.up h.up),
    hg.self (hf.there h.there)⟩

theorem Stable.startLoop (h : Stable s₀ mine s) (k : Suite) (i : Nat) (session : Session)
    (relays : List Bytes) (now : Nat) : Stable s₀ mine (s.startLoop k i session relays now) :=
  h.goes (framed_appendHeap h.there _) rfl rfl fun ht => ht.startLoop k i session now

theorem directory_discovered {i : Nat} (hphase : s.phase? i = some .discovering) (relays : List Bytes)
    (now : Nat) : s.directory (.continues i (.discovered (some relays) now)) = some (relays, now) := by
  simp [directory, hphase]

theorem Stable.framed (h : Stable s₀ mine s) {e : Event} (hr : s.Reachable e) (hm : GuardMove s e t) :
    Framed s t := by
  cases hm with
  | none e => exact .refl s
  | reached digest now hphase => exact framed_setUnreachable s _
  | @failed i a first second refused result now hphase hfailed =>
    obtain ⟨session, hi, hp⟩ := Option.map_eq_some_iff.mp hphase
    have hdials := (h.going.calls i session hi).dials
    rw [hp] at hdials
    refine framed_afterFailure hdials.1 ?_ refused now
    cases refused with
    | true =>
      rw [h.pinnedKeys]
      exact hdials.2 rfl
    | false =>
      rw [hfailed rfl] at hr
      exact hr.1 first (by simp [failedDial, hphase])
  | @found i relays now hphase =>
    exact framed_afterDirectory h.there h.up relays
      (hr.2 (relays, now) (directory_discovered hphase relays now) h.current)

theorem Stable.step (h : Stable s₀ mine s) (k : Suite) {e : Event} (hr : s.Reachable e)
    (hd : s.OtherDestination e) : Stable s₀ mine (s.step k e) := by
  obtain ⟨t, hm, hgo⟩ := h.going.step k (e := e) (h.pinnedKeys ▸ hd.1)
  exact h.goes (h.framed hr hm) hm.frame.1 hm.frame.2 hgo

/-- No guard is flagged or listed after a run in which none was before. -/
theorem Stable.pinned_eq (h : Stable s₀ mine s) (hflag : s₀.Unflagged) :
    s.pinned = s₀.pinnedKeys.map (·, false, false) := by
  rw [← h.pinnedKeys]
  unfold SourceController.pinned SourceController.pinnedKeys
  rw [List.map_filterMap]
  refine List.filterMap_congr fun guard hguard => ?_
  obtain ⟨g, hg, -⟩ := h.there guard hguard
  have hguard₀ : guard ∈ s₀.sourceGuards.candidates := h.since.guards ▸ hguard
  obtain ⟨g₀, hg₀, -⟩ := h.origin guard hguard₀
  obtain ⟨g', hg', hkey, -⟩ := h.since.heap guard g₀ hg₀
  obtain rfl := Option.some.inj (hg.symm.trans hg')
  have hnone := hflag _ (List.mem_filterMap.mpr ⟨guard, hguard₀, by rw [hg₀]; rfl⟩)
  obtain ⟨hdown, hlisted⟩ := Prod.ext_iff.mp hnone
  have hdown' : g.unreachable = false := by
    by_contra hd
    have := h.since.flagged guard hguard₀ (by unfold isDown; rw [hg]; simpa using hd)
    unfold isDown at this
    rw [hg₀] at this
    exact absurd (this.symm.trans hdown) (by decide)
  have hlisted' : s.unreachableRelays.has g.publicKey = false := by
    by_contra hl
    have := h.since.listed g.publicKey
      (List.mem_filterMap.mpr ⟨guard, hguard₀, by rw [hg₀, hkey]; rfl⟩) (by simpa using hl)
    rw [hkey] at this
    exact absurd (this.symm.trans hlisted) (by decide)
  simp [hg, hdown', hlisted']

end Stable

/-! ## A controller without guards -/

section Unpinned

variable {s : SourceController} {keys : List Bytes}

/-- No guards are pinned, so no call has begun its loop. -/
structure Unpinned (s : SourceController) : Prop where
  guards : s.sourceGuards.current = none
  waiting : ∀ session ∈ s.sessions, session.phase = .discovering ∨ session.phase = .failed

theorem unreachableRelays_release (s : SourceController) (destination : Bytes) :
    (s.release destination).unreachableRelays = s.unreachableRelays := by
  unfold release
  split
  · rfl
  · split
    · rfl
    · split <;> rfl

theorem Unpinned.release (h : s.Unpinned) (destination : Bytes) :
    (s.release destination).Unpinned := by
  unfold SourceController.release
  split
  · exact h
  · split
    · exact ⟨h.guards, h.waiting⟩
    · split
      · exact ⟨h.guards, h.waiting⟩
      · exact h

theorem Unpinned.endAttempt (h : s.Unpinned) (i : Nat) :
    (s.endAttempt i).Unpinned ∧ (s.endAttempt i).unreachableRelays = s.unreachableRelays := by
  unfold SourceController.endAttempt
  split
  · exact ⟨h, rfl⟩
  · next session hsession =>
    split
    · refine ⟨⟨h.guards, fun session' hmem => ?_⟩, rfl⟩
      rcases List.mem_or_eq_of_mem_set hmem with hold | rfl
      · exact h.waiting _ hold
      · exact .inl rfl
    · have hfailed : (s.setPhase i .failed).Unpinned := by
        refine ⟨h.guards, fun session' hmem => ?_⟩
        rcases mem_of_mem_modify hmem with hold | ⟨old, -, rfl⟩
        · exact h.waiting _ hold
        · exact .inr rfl
      exact ⟨hfailed.release _, unreachableRelays_release _ _⟩

theorem Unpinned.startLoop_nil (h : s.Unpinned) (k : Suite) (i : Nat) (session : Session)
    (now : Nat) : (s.startLoop k i session [] now).Unpinned ∧
      (s.startLoop k i session [] now).unreachableRelays = s.unreachableRelays := by
  have hnone : s.sourceGuards.candidates = [] := by
    unfold PinnedGuards.candidates
    rw [h.guards]
  obtain ⟨descriptorCache, hcache⟩ := cachedDescriptor_snd k s session now
  unfold SourceController.startLoop
  dsimp only
  rw [hcache]
  dsimp only
  rw [hnone]
  have hend : SourceController.Unpinned { s with heap := s.heap ++ [], descriptorCache } :=
    ⟨h.guards, h.waiting⟩
  exact hend.endAttempt i

/-- A directory without relays leaves the controller without guards. -/
theorem Unpinned.discovered_nil (h : s.Unpinned) (k : Suite) (i : Nat) (session : Session)
    {relays : List Bytes} {now : Nat}
    (hnil : pickGuards [] (liveRelays s.unreachableRelays relays 4 now).1 = []) :
    (s.discovered k i session relays now).Unpinned ∧
      (s.discovered k i session relays now).unreachableRelays =
        (liveRelays s.unreachableRelays relays 4 now).2 := by
  unfold SourceController.discovered SourceController.ensure
  dsimp only
  rw [h.guards, if_neg (by simp), pickGuards_eq_nil hnil]
  have hlive : SourceController.Unpinned { s with
      unreachableRelays := (liveRelays s.unreachableRelays relays 4 now).2
      heap := s.heap ++ []
      sourceGuards := ⟨none, [], now + guardLifetimeMs⟩ } := ⟨rfl, h.waiting⟩
  exact hlive.startLoop_nil k i session now

theorem candidates_places (places : List Nat) (rotateAt : Nat) :
    (PinnedGuards.mk places.head? places.tail rotateAt).candidates = places := by
  cases places with
  | nil => rfl
  | cons place places => rfl

theorem map_places (heap : List Guard) (keys : List Bytes) (f : Bytes → Guard) :
    ((List.range keys.length).map (heap.length + ·)).map ((heap ++ keys.map f)[·]?) =
      keys.map fun key => some (f key) := by
  rw [List.map_map]
  apply List.ext_getElem?
  intro j
  rw [List.getElem?_map, List.getElem?_map]
  rcases Nat.lt_or_ge j keys.length with hlt | hge
  · rw [List.getElem?_range hlt, List.getElem?_eq_getElem hlt]
    simp only [Option.map_some, Function.comp_apply]
    rw [List.getElem?_append_right (Nat.le_add_right _ _), Nat.add_sub_cancel_left,
      List.getElem?_map, List.getElem?_eq_getElem hlt]
    rfl
  · rw [List.getElem?_eq_none hge, List.getElem?_eq_none (by simpa using hge)]
    rfl

theorem Stable.start {mine : Nat → Prop} (hthere : s.There)
    (hup : s.sourceGuards.candidates.all s.isDown = false)
    (hlive : (∃ i, mine i) → s.everyGuardDown = false)
    (hdirect : ∀ key ∈ s.pinnedKeys, s.directDestinationKeys.get? key = none)
    (hcalls : ∀ i session, s.sessions[i]? = some session → s.Fits s.pinnedKeys (mine i) session.phase) :
    Stable s mine s :=
  ⟨hthere, .refl s, hup, rfl, rfl, rfl, hlive, fun _ => rfl, hdirect, hcalls⟩

theorem Unflagged.guard (h : s.Unflagged) {guard : Nat} {g : Guard}
    (hguard : guard ∈ s.sourceGuards.candidates) (hg : s.heap[guard]? = some g) :
    g.unreachable = false ∧ s.unreachableRelays.has g.publicKey = false :=
  Prod.ext_iff.mp (h (g.publicKey, g.unreachable, s.unreachableRelays.has g.publicKey)
    (List.mem_filterMap.mpr ⟨guard, hguard, by rw [hg]; rfl⟩))

/-- A controller with unflagged guards and no call past its directory. -/
theorem Unflagged.stable (hflag : s.Unflagged) (hthere : s.There)
    (hcurrent : s.sourceGuards.current ≠ none)
    (hdirect : ∀ key ∈ s.pinnedKeys, s.directDestinationKeys.get? key = none)
    (hidle : ∀ session ∈ s.sessions, session.phase.firstRelay = none) :
    Stable s (fun _ => True) s := by
  obtain ⟨current, hc⟩ := Option.ne_none_iff_exists'.mp hcurrent
  have hmem : current ∈ s.sourceGuards.candidates := by
    unfold PinnedGuards.candidates
    rw [hc]
    exact List.mem_cons_self
  obtain ⟨g, hg, -⟩ := hthere current hmem
  obtain ⟨hdown, hlisted⟩ := hflag.guard hmem hg
  refine .start hthere ?_ (fun _ => ?_) hdirect fun i session hi =>
    fits_idle (hidle session (List.mem_of_getElem? hi))
  · rw [List.all_eq_false]
    refine ⟨current, hmem, ?_⟩
    unfold isDown
    rw [hg]
    simp [hdown]
  · unfold everyGuardDown
    rw [List.all_eq_false]
    refine ⟨current, hmem, ?_⟩
    rw [hg]
    simp [hdown, hlisted]

/-- The guards with these keys are pinned, and are neither flagged nor listed. -/
def Pinned (keys : List Bytes) (s : SourceController) : Prop :=
  ∃ s₀, Stable s₀ (fun _ => True) s ∧ s₀.Unflagged ∧ s₀.pinnedKeys = keys

/-- The first directory with relays pins guards that no call asks for. -/
theorem Unpinned.ensure (h : s.Unpinned) {relays : List Bytes} {now : Nat}
    (hne : pickGuards [] relays ≠ [])
    (hreach : ∀ key ∈ relays, s.unreachableRelays.get? key = none)
    (hd : ∀ key ∈ pickGuards [] relays, s.directDestinationKeys.get? key = none) :
    Pinned (pickGuards [] relays) (s.ensure relays now) := by
  unfold SourceController.ensure
  rw [h.guards, if_neg (by simp)]
  dsimp only
  set t : SourceController := { s with
    heap := s.heap ++ (pickGuards [] relays).map fun publicKey => Guard.mk publicKey false false
    sourceGuards := ⟨((List.range (pickGuards [] relays).length).map (s.heap.length + ·)).head?,
      ((List.range (pickGuards [] relays).length).map (s.heap.length + ·)).tail,
      now + guardLifetimeMs⟩ }
  have hcandidates : t.sourceGuards.candidates =
      (List.range (pickGuards [] relays).length).map (s.heap.length + ·) := candidates_places _ _
  have hguard : ∀ guard ∈ t.sourceGuards.candidates,
      ∃ key ∈ pickGuards [] relays, t.heap[guard]? = some ⟨key, false, false⟩ := by
    rw [hcandidates]
    exact fun guard hguard => getElem?_places (fun key => ⟨key, false, false⟩) hguard
  have hkeys : t.pinnedKeys = pickGuards [] relays := by
    have hmap : t.pinnedKeys =
        (t.sourceGuards.candidates.map (t.heap[·]?)).filterMap (·.map (·.publicKey)) := by
      rw [List.filterMap_map]
      rfl
    rw [hmap, hcandidates, map_places s.heap _ _, List.filterMap_map]
    simp
  have hflag : t.Unflagged := by
    intro g hg
    obtain ⟨guard, hmem, hheap⟩ := List.mem_filterMap.mp hg
    obtain ⟨key, hkey, hplace⟩ := hguard guard hmem
    rw [hplace] at hheap
    cases hheap
    show (false, (s.unreachableRelays.get? key).isSome) = _
    rw [hreach key ((mem_pickGuards hkey).resolve_left List.not_mem_nil)]
    rfl
  refine ⟨t, hflag.stable (fun guard hmem => ?_) ?_ (hkeys ▸ hd) fun session hsession => ?_, hflag, hkeys⟩
  · obtain ⟨key, -, hplace⟩ := hguard guard hmem
    exact ⟨_, hplace, rfl⟩
  · intro hnone
    refine hne (hkeys ▸ ?_)
    unfold SourceController.pinnedKeys PinnedGuards.candidates
    rw [hnone]
    rfl
  · rcases h.waiting session hsession with hp | hp
    · rw [hp]
      rfl
    · rw [hp]
      rfl

/-- The keys that a controller pins once these directories come in. -/
def pinnedBy (unreachable : JsMap Bytes Nat) : List (List Bytes × Nat) → List Bytes
  | [] => []
  | (relays, now) :: found =>
    let live := liveRelays unreachable relays 4 now
    let keys := pickGuards [] live.1
    if keys = [] then pinnedBy live.2 found else keys

/-- The guards of a controller after directories came in: none yet, or those they pin. -/
def Pins (s : SourceController) (keys : List Bytes) : Prop :=
  s.Unpinned ∧ keys = [] ∨ Pinned keys s

theorem Unpinned.discovered (h : s.Unpinned) (k : Suite) (i : Nat) (session : Session)
    {relays : List Bytes} {now : Nat}
    (hd : ∀ key ∈ pickGuards [] (liveRelays s.unreachableRelays relays 4 now).1,
      s.directDestinationKeys.get? key = none)
    (hne : pickGuards [] (liveRelays s.unreachableRelays relays 4 now).1 ≠ []) :
    Pinned (pickGuards [] (liveRelays s.unreachableRelays relays 4 now).1)
      (s.discovered k i session relays now) := by
  unfold SourceController.discovered
  dsimp only
  have hunpinned : Unpinned
      { s with unreachableRelays := (liveRelays s.unreachableRelays relays 4 now).2 } :=
    ⟨h.guards, h.waiting⟩
  obtain ⟨s₀, hstable, hpinned⟩ := hunpinned.ensure hne (fun key hkey => liveRelays_mem hkey) hd
  exact ⟨s₀, hstable.startLoop k i session _ now, hpinned⟩

/-- A step of a controller without guards: nothing comes in, or the next directory does. -/
theorem Unpinned.step (h : s.Unpinned) (k : Suite) {e : Event} (hd : s.OtherDestination e) :
    s.directory e = none ∧ (s.step k e).Unpinned ∧
        (s.step k e).unreachableRelays = s.unreachableRelays ∨
      ∃ relays now, s.directory e = some (relays, now) ∧
        (pickGuards [] (liveRelays s.unreachableRelays relays 4 now).1 = [] ∧
            (s.step k e).Unpinned ∧ (s.step k e).unreachableRelays =
              (liveRelays s.unreachableRelays relays 4 now).2 ∨
          pickGuards [] (liveRelays s.unreachableRelays relays 4 now).1 ≠ [] ∧
            Pinned (pickGuards [] (liveRelays s.unreachableRelays relays 4 now).1) (s.step k e)) := by
  cases e with
  | connect destination useSpliced =>
    refine .inl ⟨rfl, ⟨h.guards, fun session hsession => ?_⟩, rfl⟩
    rcases List.mem_append.mp hsession with hold | hnew
    · exact h.waiting session hold
    · rw [List.mem_singleton.mp hnew]
      exact .inl rfl
  | continues i outcome =>
    cases hi : s.sessions[i]? with
    | none =>
      have hstep : s.step k (.continues i outcome) = s := by simp [SourceController.step, hi]
      refine .inl ⟨?_, by rw [hstep]; exact h, by rw [hstep]⟩
      unfold directory phase?
      split
      · next he =>
        cases he
        simp [hi]
      · rfl
    | some session =>
      have hstep : s.step k (.continues i outcome) = s.continues k i session outcome := by
        simp [SourceController.step, hi]
      rw [hstep]
      rcases h.waiting session (List.mem_of_getElem? hi) with hphase | hphase
      · cases outcome with
        | discovered relays now =>
          cases relays with
          | none =>
            have hend : s.continues k i session (.discovered none now) = s.endAttempt i := by
              simp [SourceController.continues, hphase]
            rw [hend]
            exact .inl ⟨rfl, h.endAttempt i⟩
          | some relays =>
            have hfound : s.continues k i session (.discovered (some relays) now) =
                s.discovered k i session relays now := by
              simp [SourceController.continues, hphase]
            have hdir := directory_discovered (phase?_of_session hi hphase) relays now
            refine .inr ⟨relays, now, hdir, ?_⟩
            rw [hfound]
            by_cases hnil : pickGuards [] (liveRelays s.unreachableRelays relays 4 now).1 = []
            · exact .inl ⟨hnil, h.discovered_nil k i session hnil⟩
            · exact .inr ⟨hnil, h.discovered k i session (hd.2 (relays, now) hdir h.guards) hnil⟩
        | dialed result now => exact .inl ⟨rfl, by simpa [SourceController.continues, hphase] using h⟩
        | built secondDiversity => exact .inl ⟨rfl, by simpa [SourceController.continues, hphase] using h⟩
        | resolved started respond now => exact .inl ⟨rfl, by simpa [SourceController.continues, hphase] using h⟩
        | activated response => exact .inl ⟨rfl, by simpa [SourceController.continues, hphase] using h⟩
        | finished ok => exact .inl ⟨rfl, by simpa [SourceController.continues, hphase] using h⟩
      · have hstay : s.continues k i session outcome = s := by
          cases outcome <;> simp [SourceController.continues, hphase]
        refine .inl ⟨?_, by rw [hstay]; exact h, by rw [hstay]⟩
        unfold directory phase?
        split
        · next he =>
          cases he
          simp [hi, hphase]
        · rfl

/-! ## Runs -/

theorem Stable.pins {s₀ : SourceController} {mine : Nat → Prop} (h : Stable s₀ mine s) (k : Suite)
    {events : List Event} (hr : AllMeet (SourceController.step k) Reachable s events)
    (hd : AllMeet (SourceController.step k) OtherDestination s events) :
    Stable s₀ mine (events.foldl (SourceController.step k) s) ∧ directories k s events = [] := by
  induction events generalizing s with
  | nil => exact ⟨h, rfl⟩
  | cons e events ih =>
    obtain ⟨hre, hr⟩ := allMeet_cons.mp hr
    obtain ⟨hde, hd⟩ := allMeet_cons.mp hd
    obtain ⟨hstable, hnone⟩ := ih (h.step k hre hde) hr hd
    refine ⟨hstable, ?_⟩
    have hcurrent : s.sourceGuards.current.isNone = false := by
      rw [← Option.not_isSome, h.current]
      rfl
    rw [directories, hcurrent, hnone]
    rfl

theorem Unpinned.pins (h : s.Unpinned) (k : Suite) {events : List Event}
    (hr : AllMeet (SourceController.step k) Reachable s events) (hd : AllMeet (SourceController.step k) OtherDestination s events) :
    Pins (events.foldl (SourceController.step k) s) (pinnedBy s.unreachableRelays (directories k s events)) := by
  induction events generalizing s with
  | nil => exact .inl ⟨h, rfl⟩
  | cons e events ih =>
    obtain ⟨hre, hr⟩ := allMeet_cons.mp hr
    obtain ⟨hde, hd⟩ := allMeet_cons.mp hd
    have hcurrent : s.sourceGuards.current.isNone = true := by rw [h.guards]; rfl
    rw [directories, hcurrent, if_pos rfl]
    rcases h.step k hde with ⟨hdir, hnext, hsame⟩ | ⟨relays, now, hdir, hpin⟩
    · rw [hdir, ← hsame]
      exact ih hnext hr hd
    · rw [hdir]
      change Pins _ (pinnedBy s.unreachableRelays ((relays, now) :: directories k (s.step k e) events))
      unfold pinnedBy
      dsimp only
      rcases hpin with ⟨hnil, hnext, hsame⟩ | ⟨hne, s₀, hstable, hpinned⟩
      · rw [if_pos hnil, ← hsame]
        exact ih hnext hr hd
      · rw [if_neg hne]
        exact .inr ⟨s₀, (hstable.pins k hr hd).1, hpinned⟩

end Unpinned

/-- The keys that a controller has pinned after directories came in. -/
def keysAfter (s : SourceController) (found : List (List Bytes × Nat)) : List Bytes :=
  if s.sourceGuards.current = none then pinnedBy s.unreachableRelays found else s.pinnedKeys

theorem Idle.stable {s : SourceController} (h : s.Idle) (hflag : s.Unflagged)
    (hcurrent : s.sourceGuards.current ≠ none) : Stable s (fun _ => True) s := by
  refine hflag.stable h.there hcurrent (fun key _ => ?_) fun session hsession => ?_
  · rw [h.direct]
    rfl
  · rw [h.sessions] at hsession
    exact absurd hsession List.not_mem_nil

theorem Idle.pins {s : SourceController} (h : s.Idle) (hflag : s.Unflagged) (k : Suite) {events : List Event}
    (hr : AllMeet (SourceController.step k) Reachable s events)
    (hd : AllMeet (SourceController.step k) OtherDestination s events) :
    Pins (events.foldl (SourceController.step k) s) (s.keysAfter (directories k s events)) := by
  unfold keysAfter
  split
  · next hcurrent =>
    refine Unpinned.pins ⟨hcurrent, ?_⟩ k hr hd
    rw [h.sessions]
    exact fun _ hnil => absurd hnil List.not_mem_nil
  · next hcurrent => exact .inr ⟨s, ((h.stable hflag hcurrent).pins k hr hd).1, hflag, rfl⟩

theorem Pins.pinned {s : SourceController} {keys : List Bytes} (h : Pins s keys) :
    s.pinned = keys.map (·, false, false) := by
  rcases h with ⟨hunpinned, rfl⟩ | ⟨s₀, hstable, hflag, rfl⟩
  · unfold SourceController.pinned PinnedGuards.candidates
    rw [hunpinned.guards]
    rfl
  · exact hstable.pinned_eq hflag

theorem sessions_of_firstRelay {s : SourceController} {i : Nat} {first : Bytes}
    (h : s.firstRelay i = some first) :
    ∃ session, s.sessions[i]? = some session ∧ session.phase.firstRelay = some first := by
  obtain ⟨phase, hphase, hrelay⟩ := Option.bind_eq_some_iff.mp h
  obtain ⟨session, hi, rfl⟩ := Option.map_eq_some_iff.mp hphase
  exact ⟨session, hi, hrelay⟩

/-- The first relay of a call that is at work on a pinned guard is that guard. -/
theorem Stable.firstRelay {s s₀ : SourceController} {mine : Nat → Prop} (h : Stable s₀ mine s) {i : Nat}
    (hm : mine i) {first : Bytes} (hfirst : s.firstRelay i = some first) : first ∈ s.pinnedKeys := by
  obtain ⟨session, hi, hrelay⟩ := sessions_of_firstRelay hfirst
  have hkept := (h.going.calls i session hi).kept hm
  cases hp : session.phase <;> rw [hp] at hkept hrelay <;> cases hrelay
  · exact hkept.1.mem_pinnedKeys
  · exact Holds.mem_pinnedKeys hkept
  · exact Holds.mem_pinnedKeys hkept
  · exact Holds.mem_pinnedKeys hkept
  · exact Holds.mem_pinnedKeys hkept
  · exact Holds.mem_pinnedKeys hkept

theorem Pins.firstRelay {s : SourceController} {keys : List Bytes} (h : Pins s keys) {i : Nat} {first : Bytes}
    (hfirst : s.firstRelay i = some first) : first ∈ s.pinnedKeys := by
  rcases h with ⟨hunpinned, -⟩ | ⟨s₀, hstable, -⟩
  · obtain ⟨session, hi, hrelay⟩ := sessions_of_firstRelay hfirst
    rcases hunpinned.waiting session (List.mem_of_getElem? hi) with hw | hw <;> rw [hw] at hrelay <;>
      cases hrelay
  · exact hstable.firstRelay trivial hfirst

/-- A controller that has not pinned any guards. -/
def plainSuite : Suite := ⟨fun _ _ _ => true, fun key _ => some key, id⟩

/-- A call to `destination` that pins three of four relays and dials the first of them. -/
def callTo (destination : Bytes) : List Event :=
  [.connect destination true, .continues 0 (.discovered (some [[1], [2], [3], [4]]) 5),
    .continues 0 (.dialed (.opened (some (List.replicate 32 7))) 6)]

/-- The second of two calls asks for the key of the first guard. -/
def callAfter (destination : Bytes) : List Event :=
  callTo [9] ++ [.connect destination true,
    .continues 1 (.discovered (some [[1], [2], [3], [4]]) 7),
    .continues 1 (.dialed (.opened (some (List.replicate 32 7))) 8)]

/-- Where a call asks for the key of a pinned guard, the guards do depend on it. -/
theorem not_guards_stable : ¬ ∀ (k : Suite) (s : SourceController) (events₁ events₂ : List Event),
    s.Idle → s.Unflagged → AllMeet (SourceController.step k) Reachable s events₁ →
    AllMeet (SourceController.step k) Reachable s events₂ →
    directories k s events₁ = directories k s events₂ →
    (events₁.foldl (SourceController.step k) s).pinned = (events₂.foldl (SourceController.step k) s).pinned := by
  intro h
  have hsame := h plainSuite fresh (callAfter [8]) (callAfter [1])
    ⟨fun _ h => absurd h List.not_mem_nil, rfl, rfl⟩ (fun _ h => absurd h List.not_mem_nil)
    (by decide) (by decide) (by decide)
  exact absurd hsame (by decide)

end SourceController

end HyperDht.Private.SourceRoute
