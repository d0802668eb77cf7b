import HyperDht.Lib.Modify
import HyperDht.Private.RoutePhases

/-!
# What a call does with the guards

A step does at most one thing to the guards (`GuardMove`): the dial of a guard ends, or a relay
directory comes in. Then its call goes on over the guards as they are (`Going`), with a first relay
that is a pinned guard as long as one of these is neither flagged nor listed as unreachable.
-/

namespace HyperDht.Private.SourceRoute

/-- The key of the first relay, from its dial on. -/
def Phase.firstRelay : Phase → Option Bytes
  | .discovering | .failed => none
  | .dialing _ first _ _ | .building _ first _ _ => some first
  | .resolving _ b | .activating _ b | .finishing _ b | .opened _ b => some b.firstSafetyRelay

namespace SourceController

def pinnedKeys (s : SourceController) : List Bytes :=
  s.sourceGuards.candidates.filterMap fun guard => s.heap[guard]?.map (·.publicKey)

def asksFor : Event → Option Bytes
  | .connect destination _ => some destination
  | _ => none

/-! ## What is left of the guards -/

/-- The guards on the heap stay there, with their keys. -/
def Grows (s t : SourceController) : Prop :=
  Extends (fun g g' : Guard => g'.publicKey = g.publicKey ∧ g'.ephemeral = g.ephemeral) s.heap t.heap

/-- The pinned guards stay in their order, and none of them gets flagged or listed. -/
structure Framed (s t : SourceController) : Prop where
  guards : t.sourceGuards = s.sourceGuards
  heap : Grows s t
  flagged : ∀ guard ∈ s.sourceGuards.candidates, t.isDown guard = true → s.isDown guard = true
  listed : ∀ key ∈ s.pinnedKeys, t.unreachableRelays.has key = true → s.unreachableRelays.has key = true

/-- The pinned guards are on the heap. -/
def There (s : SourceController) : Prop :=
  ∀ guard ∈ s.sourceGuards.candidates, ∃ g, s.heap[guard]? = some g ∧ g.ephemeral = false

/-- A call at work on a pinned guard; what it may still try is pinned or its own. -/
structure Holds (s : SourceController) (a : Attempt) (first : Bytes) : Prop where
  guard : a.guard ∈ s.sourceGuards.candidates
  key : ∃ g, s.heap[a.guard]? = some g ∧ g.publicKey = first
  rest : ∀ guard ∈ a.rest, guard ∈ s.sourceGuards.candidates ∨
    ∃ g, s.heap[guard]? = some g ∧ g.ephemeral = true

def Kept (s : SourceController) : Phase → Prop
  | .discovering | .failed => True
  | .dialing a first _ refused => s.Holds a first ∧ refused = false
  | .building a first _ _ => s.Holds a first
  | .resolving a b | .activating a b | .finishing a b | .opened a b =>
    s.Holds a b.firstSafetyRelay

/-- A call dials the key of its guard, and is not refused one of `keys`. -/
def Dials (s : SourceController) (keys : List Bytes) : Phase → Prop
  | .dialing a first _ refused =>
    (∃ g, s.heap[a.guard]? = some g ∧ g.publicKey = first) ∧ (refused = true → first ∉ keys)
  | _ => True

/-- A call among others; `mine` are those of which more is known. -/
structure Fits (s : SourceController) (keys : List Bytes) (mine : Prop) (p : Phase) : Prop where
  dials : s.Dials keys p
  kept : mine → s.Kept p

section Framed

variable {s t u : SourceController}

theorem Grows.refl (s : SourceController) : Grows s s := Extends.refl (fun _ => ⟨rfl, rfl⟩) _

theorem Grows.trans (h : Grows s t) (h' : Grows t u) : Grows s u :=
  Extends.trans (fun _ _ _ h h' => ⟨h'.1.trans h.1, h'.2.trans h.2⟩) h h'

theorem Framed.refl (s : SourceController) : Framed s s :=
  ⟨rfl, .refl s, fun _ _ h => h, fun _ _ h => h⟩

theorem Framed.pinnedKeys (h : Framed s t) (hthere : s.There) : t.pinnedKeys = s.pinnedKeys := by
  unfold SourceController.pinnedKeys
  rw [h.guards]
  refine List.filterMap_congr fun guard hguard => ?_
  obtain ⟨g, hg, -⟩ := hthere guard hguard
  obtain ⟨g', hg', hkey, -⟩ := h.heap guard g hg
  rw [hg, hg', Option.map_some, Option.map_some, hkey]

theorem Framed.there (h : Framed s t) (hthere : s.There) : t.There := by
  intro guard hguard
  obtain ⟨g, hg, he⟩ := hthere guard (h.guards ▸ hguard)
  obtain ⟨g', hg', -, he'⟩ := h.heap guard g hg
  exact ⟨g', hg', he'.trans he⟩

theorem Framed.trans (h : Framed s t) (hthere : s.There) (h' : Framed t u) : Framed s u where
  guards := h'.guards.trans h.guards
  heap := h.heap.trans h'.heap
  flagged guard hguard hd := h.flagged guard hguard (h'.flagged guard (h.guards ▸ hguard) hd)
  listed key hkey hl := h.listed key hkey (h'.listed key (h.pinnedKeys hthere ▸ hkey) hl)

/-- A guard that is neither flagged nor listed stays so. -/
theorem Framed.everyGuardDown (h : Framed s t) (hthere : s.There) (hup : s.everyGuardDown = false) :
    t.everyGuardDown = false := by
  unfold SourceController.everyGuardDown at hup ⊢
  rw [List.all_eq_false] at hup ⊢
  obtain ⟨guard, hguard, hnot⟩ := hup
  obtain ⟨g, hg, -⟩ := hthere guard hguard
  obtain ⟨g', hg', hkey, -⟩ := h.heap guard g hg
  refine ⟨guard, h.guards ▸ hguard, fun hdown => hnot ?_⟩
  rw [hg', Option.any_some, Bool.or_eq_true] at hdown
  rw [hg, Option.any_some, Bool.or_eq_true]
  refine hdown.imp (fun hd => ?_) fun hl => ?_
  · have := h.flagged guard hguard (by unfold isDown; rw [hg']; exact hd)
    unfold isDown at this
    rwa [hg] at this
  · exact h.listed _ (List.mem_filterMap.mpr ⟨guard, hguard, by rw [hg]; rfl⟩) (hkey ▸ hl)

theorem Framed.up (h : Framed s t) (hup : s.sourceGuards.candidates.all s.isDown = false) :
    t.sourceGuards.candidates.all t.isDown = false := by
  rw [List.all_eq_false] at hup ⊢
  obtain ⟨guard, hguard, hnot⟩ := hup
  exact ⟨guard, h.guards ▸ hguard, fun hd => hnot (h.flagged guard hguard hd)⟩

theorem Holds.frame {a : Attempt} {first : Bytes} (h : s.Holds a first)
    (hg : t.sourceGuards = s.sourceGuards) (hf : Grows s t) : t.Holds a first where
  guard := hg ▸ h.guard
  key := by
    obtain ⟨g, hheap, hkey⟩ := h.key
    obtain ⟨g', hheap', hkey', -⟩ := hf _ g hheap
    exact ⟨g', hheap', hkey'.trans hkey⟩
  rest := by
    intro guard hguard
    rcases h.rest guard hguard with hp | ⟨g, hheap, he⟩
    · exact .inl (hg ▸ hp)
    · obtain ⟨g', hheap', -, he'⟩ := hf _ g hheap
      exact .inr ⟨g', hheap', he'.trans he⟩

theorem Kept.frame {p : Phase} (h : s.Kept p) (hg : t.sourceGuards = s.sourceGuards) (hf : Grows s t) :
    t.Kept p := by
  cases p with
  | discovering => trivial
  | failed => trivial
  | dialing a first second refused => exact ⟨h.1.frame hg hf, h.2⟩
  | building a first second firstDiversity => exact Holds.frame h hg hf
  | resolving a b => exact Holds.frame h hg hf
  | activating a b => exact Holds.frame h hg hf
  | finishing a b => exact Holds.frame h hg hf
  | opened a b => exact Holds.frame h hg hf

theorem Dials.frame {keys : List Bytes} {p : Phase} (h : s.Dials keys p) (hf : Grows s t) :
    t.Dials keys p := by
  cases p with
  | dialing a first second refused =>
    obtain ⟨⟨g, hheap, hkey⟩, hrefused⟩ := h
    obtain ⟨g', hheap', hkey', -⟩ := hf _ g hheap
    exact ⟨⟨g', hheap', hkey'.trans hkey⟩, hrefused⟩
  | _ => trivial

theorem Fits.frame {keys : List Bytes} {mine : Prop} {p : Phase} (h : s.Fits keys mine p)
    (hf : Framed s t) : t.Fits keys mine p :=
  ⟨h.dials.frame hf.heap, fun hm => (h.kept hm).frame hf.guards hf.heap⟩

theorem Holds.withAttempt {a a' : Attempt} {first : Bytes} (h : s.Holds a first)
    (hg : a'.guard = a.guard) (hr : a'.rest = a.rest) : s.Holds a' first :=
  ⟨by rw [hg]; exact h.guard, by rw [hg]; exact h.key, by rw [hr]; exact h.rest⟩

theorem Holds.mem_pinnedKeys {a : Attempt} {first : Bytes} (h : s.Holds a first) :
    first ∈ s.pinnedKeys := by
  obtain ⟨g, hg, hkey⟩ := h.key
  exact List.mem_filterMap.mpr ⟨a.guard, h.guard, by rw [hg]; exact congrArg some hkey⟩

end Framed

/-! ## The choice of a first relay -/

section Going

variable {s t : SourceController} {keys : List Bytes} {mine : Nat → Prop}

/-- A step that is at work over the guards of `t`, which it leaves alone from here on. -/
structure Going (t : SourceController) (keys : List Bytes) (mine : Nat → Prop) (s : SourceController) :
    Prop where
  heap : s.heap = t.heap
  guards : s.sourceGuards = t.sourceGuards
  relays : s.unreachableRelays = t.unreachableRelays
  live : (∃ i, mine i) → t.everyGuardDown = false
  pinned : (∃ i, mine i) → t.pinnedKeys = keys
  direct : ∀ key ∈ keys, s.directDestinationKeys.get? key = none
  calls : ∀ i session, s.sessions[i]? = some session → t.Fits keys (mine i) session.phase

/-- The loop over the candidates stops at a guard on the heap. -/
theorem nextGuard_key {a a' : Attempt} {first second : Bytes} {guards : List Nat}
    (hn : s.nextGuard a guards = some (a', first, second)) :
    ∃ g, s.heap[a'.guard]? = some g ∧ g.publicKey = first := by
  induction guards with
  | nil => cases hn
  | cons guard rest ih =>
    unfold nextGuard at hn
    split at hn
    · cases hn
    · split at hn
      · next dial hdial =>
        cases hn
        obtain ⟨hguard, -, -, -, hkey⟩ := tryGuard_spec hdial
        rw [hguard]
        exact hkey
      · exact ih hn

/-- It stops at a pinned guard as long as one of these is neither flagged nor listed. -/
theorem nextGuard_holds (hlive : s.everyGuardDown = false) {a a' : Attempt} {first second : Bytes}
    {guards : List Nat}
    (hguards : ∀ guard ∈ guards, guard ∈ s.sourceGuards.candidates ∨
      ∃ g, s.heap[guard]? = some g ∧ g.ephemeral = true)
    (hn : s.nextGuard a guards = some (a', first, second)) : s.Holds a' first := by
  induction guards with
  | nil => cases hn
  | cons guard rest ih =>
    have hrest := fun g hg => hguards g (List.mem_cons_of_mem _ hg)
    unfold nextGuard at hn
    split at hn
    · cases hn
    · next hephemeral =>
      split at hn
      · next dial hdial =>
        cases hn
        obtain ⟨hguard, hrest', -, -, hkey⟩ := tryGuard_spec hdial
        rcases hguards guard List.mem_cons_self with hp | ⟨g, hg, he⟩
        · exact ⟨by rw [hguard]; exact hp, by rw [hguard]; exact hkey, by rw [hrest']; exact hrest⟩
        · refine absurd ?_ hephemeral
          rw [hg, hlive]
          simpa using he
      · exact ih hrest hn

theorem Going.everyGuardDown (h : Going t keys mine s) : s.everyGuardDown = t.everyGuardDown := by
  unfold SourceController.everyGuardDown
  rw [h.heap, h.guards, h.relays]

theorem Going.holds (h : Going t keys mine s) {a : Attempt} {first : Bytes} (ha : s.Holds a first) :
    t.Holds a first :=
  ⟨h.guards ▸ ha.guard, h.heap ▸ ha.key, h.guards ▸ h.heap ▸ ha.rest⟩

theorem Going.setPhase (h : Going t keys mine s) (i : Nat) {p : Phase} (hp : t.Fits keys (mine i) p) :
    Going t keys mine (s.setPhase i p) := by
  refine ⟨h.heap, h.guards, h.relays, h.live, h.pinned, h.direct, fun j session hj => ?_⟩
  change (s.sessions.modify i _)[j]? = _ at hj
  rw [List.getElem?_modify] at hj
  obtain ⟨old, hold, rfl⟩ := Option.map_eq_some_iff.mp hj
  split
  · next hij => exact hij ▸ hp
  · exact h.calls j old hold

theorem Going.directKeys (h : Going t keys mine s) (direct : JsMap Bytes Nat)
    (hd : ∀ key ∈ keys, direct.get? key = s.directDestinationKeys.get? key) :
    Going t keys mine { s with directDestinationKeys := direct } :=
  ⟨h.heap, h.guards, h.relays, h.live, h.pinned, fun key hkey => (hd key hkey).trans (h.direct key hkey),
    h.calls⟩

theorem Going.release (h : Going t keys mine s) (destination : Bytes) :
    Going t keys mine (s.release destination) := by
  unfold SourceController.release
  split
  · exact h
  · next active hactive =>
    have hother : ∀ key ∈ keys, key ≠ destination := by
      rintro key hkey rfl
      rw [h.direct key hkey] at hactive
      cases hactive
    split
    · exact h.directKeys _ fun key hkey => JsMap.get?_delete_ne _ (hother key hkey)
    · split
      · exact h.directKeys _ fun key hkey => JsMap.get?_set_ne _ _ (hother key hkey)
      · exact h

theorem fits_idle {mine : Prop} {p : Phase} (hp : p.firstRelay = none) : t.Fits keys mine p := by
  cases p with
  | discovering => exact ⟨trivial, fun _ => trivial⟩
  | failed => exact ⟨trivial, fun _ => trivial⟩
  | _ => cases hp

theorem Going.endAttempt (h : Going t keys mine s) (i : Nat) : Going t keys mine (s.endAttempt i) := by
  unfold SourceController.endAttempt
  split
  · exact h
  · next session hsession =>
    split
    · refine ⟨h.heap, h.guards, h.relays, h.live, h.pinned, h.direct, fun j session' hj => ?_⟩
      dsimp only at hj
      rw [List.getElem?_set] at hj
      split at hj
      · split at hj
        · cases hj
          exact fits_idle rfl
        · cases hj
      · exact h.calls j session' hj
    · exact (h.setPhase (p := .failed) i (fits_idle rfl)).release _

/-- No dial of a key is refused while nobody asks for it. -/
theorem Going.dial (h : Going t keys mine s) (i : Nat) {a : Attempt} {first second : Bytes}
    (hkey : ∃ g, s.heap[a.guard]? = some g ∧ g.publicKey = first) (ha : mine i → t.Holds a first) :
    Going t keys mine (s.dial i (some (a, first, second))) := by
  have hfree : first ∈ keys → s.directDestinationKeys.has first = false := by
    intro hfirst
    unfold JsMap.has
    rw [h.direct first hfirst]
    rfl
  have hnext := h.setPhase i (p := .dialing a first second (s.directDestinationKeys.has first))
    ⟨⟨h.heap ▸ hkey, fun hrefused hfirst => by rw [hfree hfirst] at hrefused; cases hrefused⟩,
      fun hm => ⟨ha hm, hfree (h.pinned ⟨i, hm⟩ ▸ (ha hm).mem_pinnedKeys)⟩⟩
  exact ⟨hnext.heap, hnext.guards, hnext.relays, hnext.live, hnext.pinned, hnext.direct, hnext.calls⟩

theorem Going.tryFrom (h : Going t keys mine s) (i : Nat) (a : Attempt) {guards : List Nat}
    (hguards : mine i → ∀ guard ∈ guards, guard ∈ t.sourceGuards.candidates ∨
      ∃ g, t.heap[guard]? = some g ∧ g.ephemeral = true) : Going t keys mine (s.tryFrom i a guards) := by
  unfold SourceController.tryFrom
  cases hn : s.nextGuard a guards with
  | none => exact h.endAttempt i
  | some next =>
    obtain ⟨a', first, second⟩ := next
    refine h.dial i (nextGuard_key hn) fun hm => h.holds (nextGuard_holds ?_ ?_ hn)
    · rw [h.everyGuardDown]
      exact h.live ⟨i, hm⟩
    · rw [h.guards, h.heap]
      exact hguards hm

/-- After a failed build the call goes on with its guard or the next one, or ends. -/
theorem Going.again (h : Going t keys mine s) (i : Nat) {a : Attempt} {first : Bytes}
    (ha : mine i → t.Holds a first) : Going t keys mine (s.again i a) := by
  unfold SourceController.again
  cases hn : s.tryGuard a with
  | none => exact h.tryFrom i a fun hm => (ha hm).rest
  | some next =>
    obtain ⟨a', first', second⟩ := next
    obtain ⟨hguard, hrest, -, -, hkey⟩ := tryGuard_spec hn
    refine h.dial i (by rw [hguard]; exact hkey) fun hm => ?_
    exact ⟨by rw [hguard]; exact (ha hm).guard, by rw [hguard, ← h.heap]; exact hkey,
      by rw [hrest]; exact (ha hm).rest⟩

theorem Going.extend (h : Going t keys mine s) (i : Nat) {a : Attempt} {b : Build}
    (ha : mine i → t.Holds a b.firstSafetyRelay) : Going t keys mine (s.extend i a b) := by
  unfold SourceController.extend
  split
  · exact h.again i ha
  · exact h.setPhase i ⟨trivial, ha⟩

theorem Going.built (h : Going t keys mine s) (i : Nat) {a : Attempt} {first : Bytes}
    (ha : mine i → t.Holds a first) (second firstDiversity : Bytes) (secondDiversity : Option Bytes) :
    Going t keys mine (s.built i a first second firstDiversity secondDiversity) := by
  unfold SourceController.built
  split
  · exact h.again i ha
  · dsimp only
    split
    · exact h.again i fun hm => (ha hm).withAttempt rfl rfl
    · split
      · exact h.setPhase i ⟨trivial, fun hm => (ha hm).withAttempt rfl rfl⟩
      · exact h.extend i fun hm => (ha hm).withAttempt rfl rfl

theorem Going.cache (h : Going t keys mine s) (descriptorCache : JsMap Bytes CachedDescriptor) :
    Going t keys mine { s with descriptorCache } :=
  ⟨h.heap, h.guards, h.relays, h.live, h.pinned, h.direct, h.calls⟩

theorem Going.resolved (h : Going t keys mine s) (i : Nat) (session : Session) {a : Attempt} {b : Build}
    (ha : mine i → t.Holds a b.firstSafetyRelay) (result : Except DescriptorError Descriptor) (now : Nat) :
    Going t keys mine (s.resolved i session a b result now) := by
  unfold SourceController.resolved
  split
  · exact h.again i ha
  · dsimp only
    split
    · exact h.extend i fun hm => (ha hm).withAttempt rfl rfl
    · exact (h.cache _).extend i fun hm => (ha hm).withAttempt rfl rfl

theorem Going.activated (h : Going t keys mine s) (i : Nat) (session : Session) {a : Attempt} {b : Build}
    (ha : mine i → t.Holds a b.firstSafetyRelay) (response : Option Bytes) :
    Going t keys mine (s.activated i session a b response) := by
  unfold SourceController.activated
  split
  · exact h.again i ha
  · split
    · exact (h.cache _).again i fun hm => (ha hm).withAttempt rfl rfl
    · dsimp only
      split
      · exact h.again i fun hm => (ha hm).withAttempt rfl rfl
      · exact h.setPhase i ⟨trivial, fun hm => (ha hm).withAttempt rfl rfl⟩

theorem Going.finished (h : Going t keys mine s) (i : Nat) (session : Session) {a : Attempt} {b : Build}
    (ha : mine i → t.Holds a b.firstSafetyRelay) (ok : Bool) :
    Going t keys mine (s.finished i session a b ok) := by
  unfold SourceController.finished
  split
  · exact (h.setPhase (p := .opened a b) i ⟨trivial, ha⟩).release _
  · exact h.again i ha

theorem Going.connect (h : Going t keys mine s) {destination : Bytes} (hd : destination ∉ keys)
    (useSpliced : Bool) : Going t keys mine (s.connect destination useSpliced) := by
  refine ⟨h.heap, h.guards, h.relays, h.live, h.pinned, fun key hkey => ?_, fun i session hi => ?_⟩
  · have hne : key ≠ destination := fun he => hd (he ▸ hkey)
    exact (JsMap.get?_set_ne _ _ hne).trans (h.direct key hkey)
  · rcases getElem?_concat_iff.mp hi with hold | ⟨-, rfl⟩
    · exact h.calls i session hold
    · exact fits_idle rfl

theorem getElem?_places {heap : List Guard} {keys : List Bytes} (f : Bytes → Guard) {place : Nat}
    (h : place ∈ (List.range keys.length).map (heap.length + ·)) :
    ∃ key ∈ keys, (heap ++ keys.map f)[place]? = some (f key) := by
  obtain ⟨j, hj, rfl⟩ := List.mem_map.mp h
  have hlt := List.mem_range.mp hj
  refine ⟨keys[j], List.getElem_mem hlt, ?_⟩
  rw [List.getElem?_append_right (Nat.le_add_right _ _), Nat.add_sub_cancel_left,
    List.getElem?_map, List.getElem?_eq_getElem hlt]
  rfl

theorem getElem?_heap_append {i : Nat} {g : Guard} (h : s.heap[i]? = some g) (extra : List Guard) :
    (s.heap ++ extra)[i]? = some g := by
  rw [List.getElem?_append_left (List.getElem?_eq_some_iff.mp h).1]
  exact h

theorem framed_appendHeap (hthere : s.There) (extra : List Guard) :
    Framed s { s with heap := s.heap ++ extra } where
  guards := rfl
  heap i g hg := ⟨g, getElem?_heap_append hg extra, rfl, rfl⟩
  flagged guard hguard hd := by
    obtain ⟨g, hg, -⟩ := hthere guard hguard
    unfold isDown at hd ⊢
    rw [getElem?_heap_append hg extra] at hd
    rwa [hg]
  listed _ _ h := h

/-- The other relays of a directory, as candidates of one call only. -/
def extraCandidates (s : SourceController) (relays : List Bytes) : List Guard :=
  let pinned := s.sourceGuards.candidates.filter fun guard =>
    !s.heap[guard]?.any fun g => s.unreachableRelays.has g.publicKey
  let pinnedIds := pinned.filterMap fun guard => s.heap[guard]?.map (·.publicKey)
  (relays.filter (!pinnedIds.contains ·)).map fun publicKey => Guard.mk publicKey false true

theorem Going.startLoop {relays : List Bytes}
    (h : Going { t with heap := t.heap ++ t.extraCandidates relays } keys mine
      { t with heap := t.heap ++ t.extraCandidates relays }) (k : Suite) (i : Nat) (session : Session)
    (now : Nat) : Going { t with heap := t.heap ++ t.extraCandidates relays } keys mine
      (t.startLoop k i session relays now) := by
  unfold SourceController.startLoop
  obtain ⟨descriptorCache, hcache⟩ := cachedDescriptor_snd k t session now
  dsimp only
  rw [hcache]
  refine (h.cache descriptorCache).tryFrom i _ fun _ guard hguard => ?_
  rcases List.mem_append.mp hguard with hp | hextra
  · exact .inl (List.mem_of_mem_filter hp)
  · obtain ⟨publicKey, -, hg⟩ := getElem?_places (fun publicKey => ⟨publicKey, false, true⟩) hextra
    exact .inr ⟨_, hg, rfl⟩

end Going

/-! ## Steps -/

section Steps

variable {s t : SourceController} {keys : List Bytes} {mine : Nat → Prop}

def afterFailure (s : SourceController) (guard : Nat) (first : Bytes) (refused : Bool) (now : Nat) :
    SourceController :=
  ((if refused then s else s.markRelayUnreachable first now).markRelayUnreachable first
    now).failedGuard guard

def afterDirectory (s : SourceController) (relays : List Bytes) (now : Nat) : SourceController :=
  let live := liveRelays s.unreachableRelays relays 4 now
  let t := { s with unreachableRelays := live.2 }.ensure live.1 now
  { t with heap := t.heap ++ t.extraCandidates live.1 }

/-- What a step does to the guards before its call goes on. -/
inductive GuardMove (s : SourceController) : Event → SourceController → Prop
  | none (e : Event) : GuardMove s e s
  | reached {i : Nat} {a : Attempt} {first second : Bytes} (digest : Option Bytes) (now : Nat)
    (hphase : s.phase? i = some (.dialing a first second false)) :
    GuardMove s (.continues i (.dialed (.opened digest) now)) (s.setUnreachable a.guard false)
  | failed {i : Nat} {a : Attempt} {first second : Bytes} {refused : Bool} {result : Dial} (now : Nat)
    (hphase : s.phase? i = some (.dialing a first second refused))
    (hfailed : refused = false → result = .failed) :
    GuardMove s (.continues i (.dialed result now)) (s.afterFailure a.guard first refused now)
  | found {i : Nat} (relays : List Bytes) (now : Nat) (hphase : s.phase? i = some .discovering) :
    GuardMove s (.continues i (.discovered (some relays) now)) (s.afterDirectory relays now)

theorem ensure_frame (s : SourceController) (relays : List Bytes) (now : Nat) :
    (s.ensure relays now).sessions = s.sessions ∧
      (s.ensure relays now).directDestinationKeys = s.directDestinationKeys ∧
      (s.ensure relays now).unreachableRelays = s.unreachableRelays := by
  unfold ensure
  split <;> exact ⟨rfl, rfl, rfl⟩

theorem GuardMove.frame {e : Event} (h : GuardMove s e t) :
    t.sessions = s.sessions ∧ t.directDestinationKeys = s.directDestinationKeys := by
  cases h with
  | none e => exact ⟨rfl, rfl⟩
  | reached digest now hphase => exact ⟨rfl, rfl⟩
  | @failed i a first second refused result now hphase hfailed => cases refused <;> exact ⟨rfl, rfl⟩
  | found relays now hphase => exact ⟨(ensure_frame _ _ _).1, (ensure_frame _ _ _).2.1⟩

theorem phase?_of_session {i : Nat} {session : Session} (hi : s.sessions[i]? = some session) {p : Phase}
    (hphase : session.phase = p) : s.phase? i = some p := by
  unfold phase?
  rw [hi, Option.map_some, hphase]

/-- A step does something to the guards, and then its call goes on. -/
theorem Going.step (h : Going s keys mine s) (k : Suite) {e : Event}
    (hasks : ∀ destination ∈ asksFor e, destination ∉ keys) :
    ∃ t, GuardMove s e t ∧ (Going t keys mine t → Going t keys mine (s.step k e)) := by
  cases e with
  | connect destination useSpliced =>
    exact ⟨s, .none _, fun _ => h.connect (hasks destination rfl) useSpliced⟩
  | continues i outcome =>
    unfold SourceController.step
    dsimp only
    cases hi : s.sessions[i]? with
    | none => exact ⟨s, .none _, fun _ => h⟩
    | some session =>
      have hfits := h.calls i session hi
      dsimp only
      unfold SourceController.continues
      cases outcome with
      | discovered relays now =>
        dsimp only
        split
        · next relays hphase =>
          exact ⟨_, .found relays now (phase?_of_session hi hphase), fun ht => ht.startLoop k i session now⟩
        · exact ⟨s, .none _, fun _ => h.endAttempt i⟩
        · exact ⟨s, .none _, fun _ => h⟩
      | dialed result now =>
        dsimp only
        split
        · next a first second refused hphase =>
          have hp := phase?_of_session hi hphase
          unfold SourceController.dialed
          split
          · next digest =>
            refine ⟨_, .reached digest now hp, fun ht => ?_⟩
            have hheld : mine i → (s.setUnreachable a.guard false).Holds a first := by
              have hkept := (ht.calls i session hi).kept
              rw [hphase] at hkept
              exact fun hm => (hkept hm).1
            cases digest with
            | none => exact ht.again i hheld
            | some firstDiversity =>
              dsimp only
              split
              · exact ht.again i fun hm => (hheld hm).withAttempt rfl rfl
              · exact ht.setPhase i ⟨trivial, fun hm => (hheld hm).withAttempt rfl rfl⟩
          · next hother =>
            refine ⟨_, .failed now hp ?_, fun ht => ?_⟩
            · rintro rfl
              cases result with
              | failed => rfl
              | opened digest => exact absurd rfl (hother digest rfl)
            · have hsame : (s.afterFailure a.guard first refused now).sessions = s.sessions := by
                cases refused <;> rfl
              have hkept := (ht.calls i session (hsame ▸ hi)).kept
              rw [hphase] at hkept
              exact ht.tryFrom i a fun hm => (hkept hm).1.rest
        · exact ⟨s, .none _, fun _ => h⟩
      | built secondDiversity =>
        dsimp only
        split
        · next a first second firstDiversity hphase =>
          rw [hphase] at hfits
          exact ⟨s, .none _, fun _ => h.built i hfits.kept _ _ _⟩
        · exact ⟨s, .none _, fun _ => h⟩
      | resolved started respond now =>
        dsimp only
        split
        · next a b hphase =>
          rw [hphase] at hfits
          exact ⟨s, .none _, fun _ => h.resolved i session hfits.kept _ now⟩
        · exact ⟨s, .none _, fun _ => h⟩
      | activated response =>
        dsimp only
        split
        · next a b hphase =>
          rw [hphase] at hfits
          exact ⟨s, .none _, fun _ => h.activated i session hfits.kept response⟩
        · exact ⟨s, .none _, fun _ => h⟩
      | finished ok =>
        dsimp only
        split
        · next a b hphase =>
          rw [hphase] at hfits
          exact ⟨s, .none _, fun _ => h.finished i session hfits.kept ok⟩
        · exact ⟨s, .none _, fun _ => h⟩

theorem Going.framed (h : Going t keys mine s) : Framed t s where
  guards := h.guards
  heap := by
    unfold Grows
    rw [h.heap]
    exact Extends.refl (fun _ => ⟨rfl, rfl⟩) _
  flagged guard _ hd := by
    unfold isDown at hd ⊢
    rwa [← h.heap]
  listed key _ hl := h.relays ▸ hl

/-- The calls in progress do not mind what is done to the guards, if it frames the pinned ones. -/
theorem Going.move (h : Going s keys mine s) (hthere : s.There) (hf : Framed s t)
    (hs : t.sessions = s.sessions) (hd : t.directDestinationKeys = s.directDestinationKeys) :
    Going t keys mine t where
  heap := rfl
  guards := rfl
  relays := rfl
  live hm := hf.everyGuardDown hthere (h.live hm)
  pinned hm := (hf.pinnedKeys hthere).trans (h.pinned hm)
  direct := hd ▸ h.direct
  calls i session hi := (h.calls i session (hs ▸ hi)).frame hf

theorem Going.self (h : Going t keys mine s) (hthere : t.There) : Going s keys mine s where
  heap := rfl
  guards := rfl
  relays := rfl
  live hm := h.framed.everyGuardDown hthere (h.live hm)
  pinned hm := (h.framed.pinnedKeys hthere).trans (h.pinned hm)
  direct := h.direct
  calls i session hi := (h.calls i session hi).frame h.framed

end Steps

/-! ## Guards that are spared -/

theorem get?_foldl_delete {key : Bytes} (q : Bytes × Nat → Bool) (entries : List (Bytes × Nat))
    {m : JsMap Bytes Nat} (h : m.get? key = none) :
    (entries.foldl (fun left e => if q e then left.delete e.1 else left) m).get? key = none := by
  induction entries generalizing m with
  | nil => exact h
  | cons e entries ih =>
    rw [List.foldl_cons]
    apply ih
    split
    · rw [JsMap.get?_delete]
      split
      · rfl
      · exact h
    · exact h

theorem liveRelays_none {unreachable : JsMap Bytes Nat} {key : Bytes}
    (h : unreachable.get? key = none) (relays : List Bytes) (minCount now : Nat) :
    (liveRelays unreachable relays minCount now).2.get? key = none := by
  unfold liveRelays
  dsimp only
  split
  · have := get?_foldl_delete (fun e => decide (e.2 ≤ now)) unreachable.entries h
    simpa using this
  · rfl

section Spared

variable {s : SourceController}

theorem grows_modify {guard : Nat} {f : Guard → Guard}
    (hf : ∀ g, (f g).publicKey = g.publicKey ∧ (f g).ephemeral = g.ephemeral)
    {t : SourceController} (ht : t.heap = s.heap.modify guard f) : Grows s t := by
  intro i g hg
  refine ⟨if guard = i then f g else g, ?_, ?_⟩
  · rw [ht, List.getElem?_modify, hg]
    split <;> rfl
  · split
    · exact hf g
    · exact ⟨rfl, rfl⟩

theorem framed_setUnreachable (s : SourceController) (guard : Nat) :
    Framed s (s.setUnreachable guard false) where
  guards := rfl
  heap := grows_modify (f := fun g => { g with unreachable := false }) (fun _ => ⟨rfl, rfl⟩) rfl
  flagged i _ hd := by
    unfold isDown at hd ⊢
    change ((s.heap.modify guard _)[i]?).any _ = true at hd
    rw [List.getElem?_modify] at hd
    cases hg : s.heap[i]? with
    | none => rw [hg] at hd; cases hd
    | some g =>
      rw [hg] at hd
      split at hd
      · cases hd
      · exact hd
  listed _ _ hl := hl

theorem grows_afterFailure (s : SourceController) (guard : Nat) (first : Bytes) (refused : Bool)
    (now : Nat) : Grows s (s.afterFailure guard first refused now) :=
  grows_modify (f := fun g => { g with unreachable := true }) (fun _ => ⟨rfl, rfl⟩)
    (by cases refused <;> rfl)

/-- The failure of a relay that is not pinned. -/
theorem framed_afterFailure {guard : Nat} {first : Bytes}
    (hkey : ∃ g, s.heap[guard]? = some g ∧ g.publicKey = first) (hfirst : first ∉ s.pinnedKeys)
    (refused : Bool) (now : Nat) : Framed s (s.afterFailure guard first refused now) := by
  have hout : guard ∉ s.sourceGuards.candidates := by
    intro hguard
    obtain ⟨g, hg, rfl⟩ := hkey
    exact hfirst (List.mem_filterMap.mpr ⟨guard, hguard, by rw [hg]; rfl⟩)
  have hcurrent : s.sourceGuards.current ≠ some guard := by
    intro hc
    refine hout ?_
    unfold PinnedGuards.candidates
    rw [hc]
    exact List.mem_cons_self
  have hheap : (s.afterFailure guard first refused now).heap =
      s.heap.modify guard fun g => { g with unreachable := true } := by
    cases refused <;> rfl
  have hguards : (s.afterFailure guard first refused now).sourceGuards = s.sourceGuards := by
    cases refused <;> exact if_pos hcurrent
  have hlisted : ∀ key ≠ first, (s.afterFailure guard first refused now).unreachableRelays.get? key =
      s.unreachableRelays.get? key := by
    intro key hne
    cases refused
    · exact (JsMap.get?_set_ne _ _ hne).trans (JsMap.get?_set_ne _ _ hne)
    · exact JsMap.get?_set_ne _ _ hne
  refine ⟨hguards, grows_afterFailure s guard first refused now, fun i hi hd => ?_,
    fun key hkey' hl => ?_⟩
  · have hne : guard ≠ i := fun he => hout (he ▸ hi)
    unfold isDown at hd ⊢
    rw [hheap, List.getElem?_modify] at hd
    simpa [hne] using hd
  · have hne : key ≠ first := fun he => hfirst (he ▸ hkey')
    unfold JsMap.has at hl ⊢
    rwa [hlisted key hne] at hl

theorem framed_afterDirectory (hthere : s.There)
    (hup : s.sourceGuards.candidates.all s.isDown = false) (relays : List Bytes) {now : Nat}
    (hnow : now < s.sourceGuards.rotateAt) : Framed s (s.afterDirectory relays now) := by
  have hcurrent : s.sourceGuards.current.isSome = true := by
    cases hc : s.sourceGuards.current with
    | none =>
      unfold PinnedGuards.candidates at hup
      rw [hc] at hup
      cases hup
    | some current => rfl
  have hlive : Framed s
      { s with unreachableRelays := (liveRelays s.unreachableRelays relays 4 now).2 } := by
    refine ⟨rfl, .refl s, fun _ _ h => h, fun key _ hl => ?_⟩
    unfold JsMap.has at hl ⊢
    cases hkey : s.unreachableRelays.get? key with
    | none =>
      dsimp only at hl
      rw [liveRelays_none hkey] at hl
      cases hl
    | some at_ => rfl
  have hensure : { s with unreachableRelays := (liveRelays s.unreachableRelays relays 4 now).2 }.ensure
      (liveRelays s.unreachableRelays relays 4 now).1 now =
        { s with unreachableRelays := (liveRelays s.unreachableRelays relays 4 now).2 } := by
    unfold ensure
    rw [if_pos]
    rw [hcurrent, Bool.true_and, decide_eq_true hnow, Bool.true_and, Bool.not_eq_true']
    exact hup
  unfold afterDirectory
  dsimp only
  rw [hensure]
  exact hlive.trans hthere (framed_appendHeap (hlive.there hthere) _)

end Spared

end SourceController

end HyperDht.Private.SourceRoute
