import HyperDht.Private.GuardStability

/-!
# Pinned guards from any state

In any state of a controller in which some pinned guard is unflagged, or in which none is pinned, what
the calls from there on ask for has no say in which guards are pinned and in which order, and costs no
guard its standing (`guards_kept`). A guard that was flagged before gets its flag cleared by the first
call that reaches it, and which call does depends on the relays of the descriptors
(`not_guards_kept`).
-/

namespace HyperDht.Private.SourceRoute

/-- The first relay of a dial that is refused. -/
def Phase.refused : Phase → Option Bytes
  | .dialing _ first _ true => some first
  | _ => none

namespace SourceController

/-- A state that calls have brought an idle controller to. -/
def Reached (k : Suite) (s : SourceController) : Prop :=
  ∃ (s₀ : SourceController) (past : List Event), s₀.Idle ∧ past.foldl (SourceController.step k) s₀ = s

/-- No call asks for the key of a pinned guard, and none was refused it. -/
structure Unasked (s : SourceController) : Prop where
  direct : ∀ key ∈ s.pinnedKeys, s.directDestinationKeys.get? key = none
  dials : ∀ session ∈ s.sessions, ∀ first ∈ session.phase.refused, first ∉ s.pinnedKeys

/-- No pinned guard of `s'` is flagged or listed that was not so in `s`. -/
structure Spared (s s' : SourceController) : Prop where
  flagged : ∀ g ∈ s'.pinned, g.2.1 = true → ∃ old ∈ s.pinned, old.1 = g.1 ∧ old.2.1 = true
  listed : ∀ g ∈ s'.pinned, g.2.2 = true → ∃ old ∈ s.pinned, old.1 = g.1 ∧ old.2.2 = true

/-! ## Reached states -/

section Founded

variable {s t : SourceController}

/-- The pinned guards are on the heap, and so is the guard of each dial. -/
structure Founded (s : SourceController) : Prop where
  there : s.There
  going : Going s [] (fun _ => False) s

theorem Grows.append {extra : List Guard} (h : t.heap = s.heap ++ extra) : Grows s t := by
  intro i g hg
  rw [h]
  exact ⟨g, getElem?_heap_append hg extra, rfl, rfl⟩

theorem ensure_heap (s : SourceController) (relays : List Bytes) (now : Nat) :
    Grows s (s.ensure relays now) := by
  unfold ensure
  split
  · exact .refl s
  · exact .append rfl

theorem GuardMove.grows {e : Event} (h : GuardMove s e t) : Grows s t := by
  cases h with
  | none e => exact .refl s
  | reached digest now hphase => exact (framed_setUnreachable s _).heap
  | failed now hphase hfailed => exact grows_afterFailure _ _ _ _ now
  | found relays now hphase =>
    have hensure := ensure_heap
      { s with unreachableRelays := (liveRelays s.unreachableRelays relays 4 now).2 }
      (liveRelays s.unreachableRelays relays 4 now).1 now
    change Grows s _ at hensure
    exact hensure.trans (.append rfl)

theorem mem_candidates_failed {g : PinnedGuards} {guard other : Nat}
    (h : other ∈ (g.failed guard).candidates) : other ∈ g.candidates := by
  unfold PinnedGuards.failed at h
  split at h
  · exact h
  · next hcurrent =>
    rw [not_not] at hcurrent
    dsimp only at h
    rw [candidates_places] at h
    rcases List.mem_append.mp h with h | h
    · exact List.mem_of_mem_filter h
    · obtain rfl := List.mem_singleton.mp h
      unfold PinnedGuards.candidates
      rw [hcurrent]
      exact List.mem_cons_self

theorem ensure_there (h : s.There) (relays : List Bytes) (now : Nat) : (s.ensure relays now).There := by
  unfold ensure
  split
  · exact h
  · intro guard hguard
    dsimp only at hguard
    rw [candidates_places] at hguard
    obtain ⟨key, -, hplace⟩ := getElem?_places (fun key => ⟨key, false, false⟩) hguard
    exact ⟨_, hplace, rfl⟩

theorem GuardMove.there {e : Event} (h : GuardMove s e t) (hthere : s.There) : t.There := by
  cases h with
  | none e => exact hthere
  | reached digest now hphase => exact (framed_setUnreachable s _).there hthere
  | @failed i a first second refused result now hphase hfailed =>
    intro guard hguard
    have hold : guard ∈ s.sourceGuards.candidates := by
      cases refused <;> exact mem_candidates_failed hguard
    obtain ⟨g, hg, he⟩ := hthere guard hold
    obtain ⟨g', hg', -, he'⟩ := grows_afterFailure s a.guard first refused now guard g hg
    exact ⟨g', hg', he'.trans he⟩
  | found relays now hphase =>
    have hlive : SourceController.There
        { s with unreachableRelays := (liveRelays s.unreachableRelays relays 4 now).2 } := hthere
    have hensure := ensure_there hlive (liveRelays s.unreachableRelays relays 4 now).1 now
    exact (framed_appendHeap hensure _).there hensure

theorem Founded.step (h : s.Founded) (k : Suite) (e : Event) : (s.step k e).Founded := by
  obtain ⟨t, hm, hgo⟩ := h.going.step k (e := e) fun _ _ => List.not_mem_nil
  have hthere := hm.there h.there
  have ht : Going t [] (fun _ => False) t := by
    refine ⟨rfl, rfl, rfl, fun hm => hm.elim fun _ hf => hf.elim, fun hm => hm.elim fun _ hf => hf.elim,
      fun key hkey => absurd hkey List.not_mem_nil, fun i session hi => ⟨?_, False.elim⟩⟩
    exact (h.going.calls i session (hm.frame.1 ▸ hi)).dials.frame hm.grows
  exact ⟨(hgo ht).framed.there hthere, (hgo ht).self hthere⟩

theorem Idle.founded (h : s.Idle) : s.Founded := by
  refine ⟨h.there, rfl, rfl, rfl, fun hm => hm.elim fun _ hf => hf.elim,
    fun hm => hm.elim fun _ hf => hf.elim, fun key hkey => absurd hkey List.not_mem_nil,
    fun i session hi => ?_⟩
  rw [h.sessions] at hi
  cases hi

theorem Reached.founded {k : Suite} (h : Reached k s) : s.Founded := by
  obtain ⟨s₀, past, hidle, rfl⟩ := h
  refine List.foldlRecOn past _ hidle.founded fun s hs e _ => hs.step k e

end Founded

/-! ## Runs -/

section Kept

variable {k : Suite} {s s' : SourceController}

theorem Phase.dials_of_refused {keys : List Bytes} {p : Phase} (h : s.Dials [] p)
    (hrefused : ∀ first ∈ p.refused, first ∉ keys) : s.Dials keys p := by
  cases p with
  | dialing a first second refused =>
    refine ⟨h.1, ?_⟩
    rintro rfl
    exact hrefused first rfl
  | _ => trivial

/-- Reached states in which some pinned guard is unflagged and nobody asks for one. -/
theorem Founded.stable (h : s.Founded) (hup : s.sourceGuards.candidates.all s.isDown = false)
    (hasked : s.Unasked) :
    Stable s (fun i => s.everyGuardDown = false ∧ s.firstRelay i = none) s := by
  refine .start h.there hup (fun hm => hm.elim fun _ hm => hm.1) hasked.direct fun i session hi => ?_
  refine ⟨Phase.dials_of_refused (h.going.calls i session hi).dials
    (hasked.dials session (List.mem_of_getElem? hi)), fun hm => ?_⟩
  have hnone := hm.2
  unfold SourceController.firstRelay phase? at hnone
  rw [hi] at hnone
  have hfits : s.Fits [] True session.phase := fits_idle hnone
  exact hfits.kept trivial

theorem mem_pinned {g : Bytes × Bool × Bool} (h : g ∈ s.pinned) :
    ∃ guard ∈ s.sourceGuards.candidates, ∃ held, s.heap[guard]? = some held ∧
      g = (held.publicKey, held.unreachable, s.unreachableRelays.has held.publicKey) := by
  obtain ⟨guard, hguard, hg⟩ := List.mem_filterMap.mp h
  obtain ⟨held, hheld, rfl⟩ := Option.map_eq_some_iff.mp hg
  exact ⟨guard, hguard, held, hheld, rfl⟩

theorem Stable.spared {mine : Nat → Prop} (h : Stable s mine s') : Spared s s' := by
  have hold : ∀ guard ∈ s'.sourceGuards.candidates, ∀ held, s'.heap[guard]? = some held →
      ∃ was, s.heap[guard]? = some was ∧ was.publicKey = held.publicKey ∧
        (was.publicKey, was.unreachable, s.unreachableRelays.has was.publicKey) ∈ s.pinned ∧
        (held.unreachable = true → was.unreachable = true) := by
    intro guard hguard held hheld
    rw [h.since.guards] at hguard
    obtain ⟨was, hwas, -⟩ := h.origin guard hguard
    obtain ⟨held', hheld', hkey, -⟩ := h.since.heap guard was hwas
    obtain rfl := Option.some.inj (hheld.symm.trans hheld')
    refine ⟨was, hwas, hkey.symm, List.mem_filterMap.mpr ⟨guard, hguard, by rw [hwas]; rfl⟩, fun hd => ?_⟩
    have := h.since.flagged guard hguard (by unfold isDown; rw [hheld]; exact hd)
    unfold isDown at this
    rwa [hwas] at this
  refine ⟨fun g hg hd => ?_, fun g hg hl => ?_⟩
  · obtain ⟨guard, hguard, held, hheld, rfl⟩ := mem_pinned hg
    obtain ⟨was, -, hkey, hmem, hflag⟩ := hold guard hguard held hheld
    exact ⟨_, hmem, hkey, hflag hd⟩
  · obtain ⟨guard, hguard, held, hheld, rfl⟩ := mem_pinned hg
    obtain ⟨was, hwas, hkey, hmem, -⟩ := hold guard hguard held hheld
    refine ⟨_, hmem, hkey, ?_⟩
    dsimp only at hl ⊢
    rw [hkey]
    refine h.since.listed _ (List.mem_filterMap.mpr ⟨guard, h.since.guards ▸ hguard, ?_⟩) hl
    rw [hwas]
    exact congrArg some hkey

theorem pinnedKeys_eq (s : SourceController) : s.pinnedKeys = s.pinned.map (·.1) := by
  unfold SourceController.pinnedKeys pinned
  rw [List.map_filterMap]
  refine List.filterMap_congr fun guard _ => ?_
  cases s.heap[guard]? <;> rfl

/-- What a run leaves of the pinned guards, from a state in which one of them is unflagged or none is
pinned yet. -/
theorem Reached.run (h : Reached k s)
    (hup : s.Unpinned ∨ s.sourceGuards.candidates.all s.isDown = false) (hasked : s.Unasked)
    {events : List Event} (hr : AllMeet (SourceController.step k) Reachable s events)
    (hd : AllMeet (SourceController.step k) OtherDestination s events)
    (hs' : s' = events.foldl (SourceController.step k) s) :
    s'.pinnedKeys = s.keysAfter (directories k s events) ∧ Spared s s' ∧
      (s.Unpinned ∨ s.everyGuardDown = false → ∀ i first, s.firstRelay i = none →
        s'.firstRelay i = some first → first ∈ s'.pinnedKeys) := by
  subst hs'
  by_cases hcurrent : s.sourceGuards.current = none
  · have hunpinned : s.Unpinned := by
      rcases hup with hup | hup
      · exact hup
      · unfold PinnedGuards.candidates at hup
        rw [hcurrent] at hup
        cases hup
    have hpins := hunpinned.pins k hr hd
    have hpinned := hpins.pinned
    refine ⟨?_, ⟨fun g hg hd => ?_, fun g hg hl => ?_⟩, fun _ i first _ hfirst => hpins.firstRelay hfirst⟩
    · rw [pinnedKeys_eq, hpinned, List.map_map, keysAfter, if_pos hcurrent]
      exact List.map_id _
    · rw [hpinned] at hg
      obtain ⟨key, -, rfl⟩ := List.mem_map.mp hg
      cases hd
    · rw [hpinned] at hg
      obtain ⟨key, -, rfl⟩ := List.mem_map.mp hg
      cases hl
  · have hup' := hup.resolve_left fun hunpinned => hcurrent hunpinned.guards
    have hstable := ((h.founded.stable hup' hasked).pins k hr hd).1
    refine ⟨?_, hstable.spared, fun hlive i first hnone hfirst => ?_⟩
    · rw [hstable.pinnedKeys, keysAfter, if_neg hcurrent]
    · exact hstable.firstRelay ⟨hlive.resolve_left fun hunpinned => hcurrent hunpinned.guards, hnone⟩
        hfirst

end Kept

/-! ## A guard that was flagged -/

def relayKey (n : UInt8) : Bytes := List.replicate 32 n

/-- A descriptor of `destination` over an entry and a guard. -/
def wireOver (destination entry guard : UInt8) : Bytes :=
  descriptorVersion :: be64 0 ++ relayKey destination ++ relayKey entry ++ relayKey guard ++
    relayKey 0 ++ be64 0 ++ be64 600000 ++ List.replicate 64 0

def sixRelays : List Bytes := [1, 2, 3, 4, 5, 6].map relayKey

/-- A call that pins three of six relays and cannot reach the first of them. -/
def lost : List Event :=
  [.connect (relayKey 9) true, .continues 0 (.discovered (some sixRelays) 5),
    .continues 0 (.dialed .failed 6)]

/-- The answers of the storage: the descriptor of 20 is over two guards, that of any other over none. -/
def stored (request : Bytes) : Option (Nat × Bytes) :=
  some (70003, statusOk :: if request.drop 9 = relayKey 20 then wireOver 20 2 3 else wireOver 21 5 6)

/-- What a call a minute later meets with. -/
def later : List Event :=
  [.continues 1 (.discovered (some sixRelays) 70000),
    .continues 1 (.dialed (.opened (some (relayKey 100))) 70001),
    .continues 1 (.built (some (relayKey 101))),
    .continues 1 (.resolved 70002 stored 70004),
    .continues 1 (.dialed (.opened (some (relayKey 102))) 70005)]

end SourceController

end HyperDht.Private.SourceRoute
