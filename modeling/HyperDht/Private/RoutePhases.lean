import HyperDht.Private.SourceRoute

/-!
# The phases of a call

What a step does to a call, whatever the other calls do: it starts a circuit build with two relays
that differ, goes on with the one it has, or ends (`Moves`). Every descriptor on the way was
decoded, and a circuit whose keys are in its descriptor is never activated.
-/

namespace HyperDht.Private.SourceRoute

/-- A descriptor that `decodeDescriptor` accepted. -/
def Decoded (k : Suite) (d : Descriptor) : Prop := ∃ o wire, decodeDescriptor k o wire = .ok d

theorem Decoded.eq_fieldsOf {k : Suite} {d : Descriptor} (h : Decoded k d) : d = fieldsOf d.wire := by
  obtain ⟨o, wire, hd⟩ := h
  rw [decodeDescriptor_eq hd]
  rfl

theorem Decoded.keys_ne {k : Suite} {d : Descriptor} (h : Decoded k d) :
    d.entryRelayPublicKey ≠ d.destinationGuardPublicKey := by
  obtain ⟨o, wire, hd⟩ := h
  obtain rfl := decodeDescriptor_eq hd
  unfold decodeDescriptor at hd
  dsimp only at hd
  intro he
  split at hd
  · cases hd
  · cases hd

def Attempt.Decoded (k : Suite) (a : Attempt) : Prop :=
  ∀ d, a.descriptor = some d → SourceRoute.Decoded k d

/-- A call that starts a circuit build, or waits for its relay directory, or has failed. -/
def Restarts (k : Suite) : Phase → Prop
  | .discovering | .failed => True
  | .dialing a first second _ => first ≠ second ∧ a.Decoded k
  | _ => False

/-- A call whose circuit is apart from the relays of its descriptor. -/
structure Apart (k : Suite) (a : Attempt) (b : Build) : Prop where
  decoded : a.Decoded k
  known : ∃ d, a.descriptor = some d
  first : SourceController.inDescriptor a b.firstSafetyRelay = false
  second : SourceController.inDescriptor a b.secondSafetyRelay = false

theorem Apart.keys {k : Suite} {a : Attempt} {b : Build} (h : Apart k a b) {d : Descriptor}
    (hd : a.descriptor = some d) (hne : b.firstSafetyRelay ≠ b.secondSafetyRelay) :
    [b.firstSafetyRelay, b.secondSafetyRelay, d.entryRelayPublicKey,
      d.destinationGuardPublicKey].Nodup := by
  have hfirst := h.first
  have hsecond := h.second
  unfold SourceController.inDescriptor at hfirst hsecond
  rw [hd] at hfirst hsecond
  simp only [Option.any_some, Bool.or_eq_false_iff, decide_eq_false_iff_not] at hfirst hsecond
  simp only [List.nodup_cons, List.mem_cons, List.not_mem_nil, or_false, not_or, not_false_eq_true,
    List.nodup_nil, and_true]
  exact ⟨⟨hne, hfirst⟩, hsecond, (h.decoded d hd).keys_ne⟩

open SourceController (Outcome requireDiverse)

/-- Does a call wait for an outcome of this kind? -/
def waitsFor : Phase → Outcome → Bool
  | .discovering, .discovered .. | .dialing .., .dialed .. | .building .., .built _ |
    .resolving .., .resolved .. | .activating .., .activated _ | .finishing .., .finished _ => true
  | _, _ => false

/-- What an outcome does to the phase of a call. -/
inductive Moves (k : Suite) : Phase → Outcome → Phase → Prop
  | stays {p : Phase} {o : Outcome} (h : waitsFor p o = false) : Moves k p o p
  | restarts {p' : Phase} (p : Phase) (o : Outcome) (h : Restarts k p') : Moves k p o p'
  | dialed {a a' : Attempt} (first second digest : Bytes) (now : Nat) (h : a'.Decoded k) :
    Moves k (.dialing a first second false) (.dialed (.opened (some digest)) now)
      (.building a' first second digest)
  | resolves {a a' : Attempt} (b : Build) (h : a'.Decoded k)
    (hdiverse : requireDiverse [b.firstDiversity, b.secondDiversity] = true) :
    Moves k (.building a b.firstSafetyRelay b.secondSafetyRelay b.firstDiversity)
      (.built (some b.secondDiversity)) (.resolving a' b)
  | apart {a a' : Attempt} (b : Build) (h : Apart k a' b)
    (hdiverse : requireDiverse [b.firstDiversity, b.secondDiversity] = true) :
    Moves k (.building a b.firstSafetyRelay b.secondSafetyRelay b.firstDiversity)
      (.built (some b.secondDiversity)) (.activating a' b)
  | resolved {a a' : Attempt} (b : Build) (started now : Nat)
    (respond : Bytes → Option (Nat × Bytes)) (h : Apart k a' b)
    (hanswered : ∃ request answer, respond request = some answer) :
    Moves k (.resolving a b) (.resolved started respond now) (.activating a' b)
  | activated {a : Attempt} (b : Build) (response : Bytes) (hlength : response.length = 65)
    (hok : response[0]? = some statusOk)
    (hdiverse : requireDiverse [b.firstDiversity, b.secondDiversity, subarray response 1 33,
      subarray response 33 65] = true) :
    Moves k (.activating a b) (.activated (some response))
      (.finishing { a with
        entryDiversity := some (subarray response 1 33)
        guardDiversity := some (subarray response 33 65) } b)
  | finished (a : Attempt) (b : Build) : Moves k (.finishing a b) (.finished true) (.opened a b)

/-! ## One call among others -/

/-- A step sets the phase of one call. -/
structure Sets (ss ss' : List Session) (i : Nat) (q : Phase → Prop) : Prop where
  self : ∃ session, ss'[i]? = some session ∧ q session.phase
  others : ∀ i', i' ≠ i → ss'[i']? = ss[i']?

theorem Sets.mono {ss ss' : List Session} {i : Nat} {q r : Phase → Prop} (h : Sets ss ss' i q)
    (hqr : ∀ p, q p → r p) : Sets ss ss' i r := by
  obtain ⟨session, hs, hq⟩ := h.self
  exact ⟨⟨session, hs, hqr _ hq⟩, h.others⟩

namespace SourceController

variable {k : Suite} {s : SourceController} {i : Nat} {session : Session}

theorem sessions_release (s : SourceController) (destination : Bytes) :
    (s.release destination).sessions = s.sessions := by
  unfold release
  split
  · rfl
  · split
    · rfl
    · split <;> rfl

theorem setPhase_sets (hi : s.sessions[i]? = some session) {p : Phase} {q : Phase → Prop}
    (h : q p) : Sets s.sessions (s.setPhase i p).sessions i q := by
  refine ⟨⟨{ session with phase := p }, ?_, h⟩, fun i' hne => ?_⟩
  · show (s.sessions.modify i _)[i]? = _
    rw [List.getElem?_modify_eq, hi]
    rfl
  · show (s.sessions.modify i _)[i']? = _
    rw [List.getElem?_modify]
    simp [Ne.symm hne]

theorem endAttempt_sets (hi : s.sessions[i]? = some session) :
    Sets s.sessions (s.endAttempt i).sessions i (Restarts k) := by
  unfold endAttempt
  rw [hi]
  dsimp only
  split
  · refine ⟨⟨_, List.getElem?_set_self (List.getElem?_eq_some_iff.mp hi).1, trivial⟩, fun i' hne => ?_⟩
    exact List.getElem?_set_ne (Ne.symm hne)
  · rw [sessions_release]
    exact setPhase_sets hi trivial

/-- The relays that a circuit build dials: the guard, and another one. -/
theorem tryGuard_spec {a a' : Attempt} {first second : Bytes}
    (h : s.tryGuard a = some (a', first, second)) :
    a'.guard = a.guard ∧ a'.rest = a.rest ∧ a'.descriptor = a.descriptor ∧ first ≠ second ∧
      ∃ g, s.heap[a.guard]? = some g ∧ g.publicKey = first := by
  unfold tryGuard at h
  split at h
  · cases h
  · split at h
    · cases h
    · next g hg =>
      dsimp only at h
      split at h
      · cases h
      · split at h
        · cases h
        · next hsecond =>
          cases h
          have hfound := List.find?_some hsecond
          simp only [Bool.and_eq_true, decide_eq_true_eq] at hfound
          exact ⟨rfl, rfl, rfl, fun he => hfound.1.1.1.1.1.1 he.symm, g, hg, rfl⟩

theorem nextGuard_relays {a a' : Attempt} {first second : Bytes} {guards : List Nat}
    (h : s.nextGuard a guards = some (a', first, second)) :
    first ≠ second ∧ a'.descriptor = a.descriptor := by
  induction guards with
  | nil => cases h
  | cons guard rest ih =>
    unfold nextGuard at h
    split at h
    · cases h
    · split at h
      · next dial hdial =>
        cases h
        obtain ⟨-, -, hd, hne, -⟩ := tryGuard_spec hdial
        exact ⟨hne, hd⟩
      · exact ih h

section Same

-- what a step did to the other fields before
variable {s' : SourceController} (hsame : s'.sessions = s.sessions) (hi : s.sessions[i]? = some session)
include hsame hi

theorem dial_sets {next : Option (Attempt × Bytes × Bytes)}
    (h : ∀ a first second, next = some (a, first, second) → first ≠ second ∧ a.Decoded k) :
    Sets s.sessions (s'.dial i next).sessions i (Restarts k) := by
  rw [← hsame] at hi ⊢
  unfold dial
  split
  · exact endAttempt_sets hi
  · next a first second => exact setPhase_sets hi (h a first second rfl)

theorem tryFrom_sets {a : Attempt} (ha : a.Decoded k) (guards : List Nat) :
    Sets s.sessions (s'.tryFrom i a guards).sessions i (Restarts k) := by
  refine dial_sets hsame hi fun a' first second hn => ?_
  obtain ⟨hne, hd⟩ := nextGuard_relays hn
  exact ⟨hne, fun d hdesc => ha d (hd ▸ hdesc)⟩

theorem again_sets {a : Attempt} (ha : a.Decoded k) :
    Sets s.sessions (s'.again i a).sessions i (Restarts k) := by
  unfold again
  split
  · next next hn =>
    refine dial_sets hsame hi fun a' first second he => ?_
    cases he
    obtain ⟨-, -, hd, hne, -⟩ := tryGuard_spec hn
    exact ⟨hne, fun d hdesc => ha d (hd ▸ hdesc)⟩
  · exact tryFrom_sets hsame hi ha a.rest

end Same

/-! ## The steps of a call -/

theorem cachedDescriptor_snd (k : Suite) (s : SourceController) (session : Session) (now : Nat) :
    ∃ descriptorCache, (cachedDescriptor k s session now).2 = { s with descriptorCache } := by
  unfold cachedDescriptor
  split
  · split
    · exact ⟨_, rfl⟩
    · dsimp only
      split
      · split
        · exact ⟨_, rfl⟩
        · exact ⟨_, rfl⟩
      · exact ⟨_, rfl⟩
  · exact ⟨_, rfl⟩

theorem cachedDescriptor_decoded {now : Nat} {d : Descriptor}
    (h : (cachedDescriptor k s session now).1 = some d) : Decoded k d := by
  unfold cachedDescriptor at h
  split at h
  · split at h
    · cases h
    · dsimp only at h
      split at h
      · split at h
        · next hd =>
          cases h
          exact ⟨_, _, hd⟩
        · cases h
      · cases h
  · cases h

/-- A descriptor of `_resolveThrough` came with an answer. -/
theorem resolvePeriods_decoded {destination : Bytes} {respond : Bytes → Option (Nat × Bytes)}
    {periods : List Nat} {d : Descriptor}
    (h : (resolvePeriods k destination respond periods).2 = .ok d) :
    Decoded k d ∧ ∃ request answer, respond request = some answer := by
  induction periods with
  | nil => cases h
  | cons period periods ih =>
    unfold resolvePeriods at h
    split at h
    · cases h
    · dsimp only at h
      split at h
      · cases h
      · next hanswer =>
        split at h
        · exact ih h
        · split at h
          · cases h
          · exact ⟨⟨_, _, h⟩, _, _, hanswer⟩

theorem ensure_sessions (s : SourceController) (relays : List Bytes) (now : Nat) :
    (s.ensure relays now).sessions = s.sessions := by
  unfold ensure
  split <;> rfl

theorem startLoop_sets {s' : SourceController} (hsame : s'.sessions = s.sessions)
    (hi : s.sessions[i]? = some session) (relays : List Bytes) (now : Nat) :
    Sets s.sessions (s'.startLoop k i session relays now).sessions i (Restarts k) := by
  unfold startLoop
  obtain ⟨descriptorCache, hcache⟩ := cachedDescriptor_snd k s' session now
  dsimp only
  rw [hcache]
  refine tryFrom_sets ?_ hi ?_ _
  · exact hsame
  · exact fun d hd => cachedDescriptor_decoded hd

theorem discovered_sets (hi : s.sessions[i]? = some session) (relays : List Bytes) (now : Nat) :
    Sets s.sessions (s.discovered k i session relays now).sessions i (Restarts k) := by
  unfold discovered
  refine startLoop_sets ?_ hi _ _
  exact ensure_sessions _ _ _

theorem extend_sets {s' : SourceController} (hsame : s'.sessions = s.sessions)
    (hi : s.sessions[i]? = some session) {a : Attempt} {b : Build} (ha : a.Decoded k)
    (hd : ∃ d, a.descriptor = some d) :
    Sets s.sessions (s'.extend i a b).sessions i fun p =>
      Restarts k p ∨ p = .activating a b ∧ Apart k a b := by
  unfold extend
  split
  · exact (again_sets hsame hi ha).mono fun _ h => .inl h
  · next hapart =>
    rw [Bool.or_eq_true, not_or, Bool.not_eq_true, Bool.not_eq_true] at hapart
    rw [← hsame] at hi ⊢
    exact setPhase_sets hi (.inr ⟨rfl, ha, hd, hapart.1, hapart.2⟩)

end SourceController

/-- The descriptor of a call was decoded. -/
def Phase.Decoded (k : Suite) : Phase → Prop
  | .dialing a .. | .building a .. | .resolving a _ | .activating a _ | .finishing a _ |
    .opened a _ => a.Decoded k
  | _ => True

theorem Restarts.decoded {k : Suite} {p : Phase} (h : Restarts k p) : p.Decoded k := by
  cases p with
  | dialing a first second refused => exact h.2
  | discovering => trivial
  | failed => trivial
  | _ => exact h.elim

theorem Moves.decoded {k : Suite} {p p' : Phase} {o : Outcome} (h : Moves k p o p')
    (hp : p.Decoded k) : p'.Decoded k := by
  cases h with
  | stays => exact hp
  | restarts p o h => exact h.decoded
  | dialed first second digest now h => exact h
  | resolves b h => exact h
  | apart b h => exact h.decoded
  | resolved b started now respond h hanswered => exact h.decoded
  | activated b response => exact hp
  | finished a b => exact hp

theorem Sets.restarts {k : Suite} {ss ss' : List Session} {i : Nat} {p : Phase} {o : Outcome}
    (h : Sets ss ss' i (Restarts k)) : Sets ss ss' i (Moves k p o) :=
  h.mono fun _ hr => .restarts p o hr

namespace SourceController

variable {k : Suite} {s : SourceController} {i : Nat} {session : Session}

theorem continues_sets (hi : s.sessions[i]? = some session) (hd : session.phase.Decoded k)
    (o : Outcome) :
    Sets s.sessions (s.continues k i session o).sessions i (Moves k session.phase o) := by
  have hstays (h : waitsFor session.phase o = false) :
      Sets s.sessions s.sessions i (Moves k session.phase o) :=
    ⟨⟨session, hi, .stays h⟩, fun _ _ => rfl⟩
  unfold continues
  split
  · next o relays now =>
    have hwaits (h : session.phase ≠ .discovering) :
        waitsFor session.phase (.discovered relays now) = false := by
      cases hp : session.phase with
      | discovering => exact (h hp).elim
      | _ => rfl
    split
    · exact .restarts (discovered_sets hi _ _)
    · exact .restarts (endAttempt_sets hi)
    · next relays p _ hsome hnone =>
      refine hstays (hwaits fun hp => ?_)
      cases hr : relays with
      | none => exact hnone hp hr
      | some relays => exact hsome relays hp hr
  · next result now =>
    split
    · next a first second refused hphase =>
      rw [hphase] at hd ⊢
      replace hd : a.Decoded k := hd
      unfold dialed
      split
      · next digest =>
        dsimp only
        split
        · exact .restarts (again_sets (by rfl) hi hd)
        · next digest =>
          split
          · exact .restarts (again_sets (by rfl) hi hd)
          · exact setPhase_sets hi (.dialed first second digest now hd)
      · refine .restarts (tryFrom_sets ?_ hi hd _)
        cases refused <;> rfl
    · next hother =>
      refine hstays ?_
      cases hp : session.phase with
      | dialing a first second refused => exact (hother a first second refused hp).elim
      | _ => rfl
  · next digest =>
    split
    · next a first second firstDiversity hphase =>
      rw [hphase] at hd ⊢
      replace hd : a.Decoded k := hd
      unfold built
      split
      · exact .restarts (again_sets (by rfl) hi hd)
      · next secondDiversity =>
        dsimp only
        split
        · exact .restarts (again_sets (by rfl) hi hd)
        · next hdiverse =>
          rw [Bool.not_eq_true, Bool.not_eq_false'] at hdiverse
          split
          · exact setPhase_sets hi (.resolves ⟨first, second, firstDiversity, secondDiversity⟩ hd
              hdiverse)
          · next d hdesc =>
            refine Sets.mono (extend_sets (by rfl) hi hd ⟨d, hdesc⟩) fun p hp => ?_
            rcases hp with h | ⟨rfl, h⟩
            · exact .restarts _ _ h
            · exact .apart ⟨first, second, firstDiversity, secondDiversity⟩ h hdiverse
    · next hother =>
      refine hstays ?_
      cases hp : session.phase with
      | building a first second firstDiversity => exact (hother a first second firstDiversity hp).elim
      | _ => rfl
  · next started respond now =>
    split
    · next a b hphase =>
      rw [hphase] at hd ⊢
      replace hd : a.Decoded k := hd
      unfold resolved
      split
      · exact .restarts (again_sets (by rfl) hi hd)
      · next d hresult =>
        dsimp only
        have ha : ({ a with descriptor := some d } : Attempt).Decoded k := by
          intro d' hd'
          cases hd'
          exact (resolvePeriods_decoded hresult).1
        have hmoves (p : Phase) (hp : Restarts k p ∨ p = .activating { a with descriptor := some d } b ∧
            Apart k { a with descriptor := some d } b) :
            Moves k (.resolving a b) (.resolved started respond now) p := by
          rcases hp with h | ⟨rfl, h⟩
          · exact .restarts _ _ h
          · exact .resolved b started now respond h (resolvePeriods_decoded hresult).2
        refine Sets.mono (extend_sets ?_ hi ha ⟨d, rfl⟩) hmoves
        split <;> rfl
    · next hother =>
      refine hstays ?_
      cases hp : session.phase with
      | resolving a b => exact (hother a b hp).elim
      | _ => rfl
  · next response =>
    split
    · next a b hphase =>
      rw [hphase] at hd ⊢
      replace hd : a.Decoded k := hd
      unfold activated
      split
      · exact .restarts (again_sets (by rfl) hi hd)
      · next response =>
        split
        · refine .restarts (again_sets (by rfl) hi ?_)
          intro d hd
          cases hd
        · next hresponse =>
          obtain ⟨hlength, hok⟩ := not_or.mp hresponse
          dsimp only
          split
          · exact .restarts (again_sets (by rfl) hi hd)
          · next hdiverse =>
            rw [Bool.not_eq_true, Bool.not_eq_false'] at hdiverse
            exact setPhase_sets hi (.activated b response (not_not.mp hlength) (not_not.mp hok)
              hdiverse)
    · next hother =>
      refine hstays ?_
      cases hp : session.phase with
      | activating a b => exact (hother a b hp).elim
      | _ => rfl
  · next ok =>
    split
    · next a b hphase =>
      rw [hphase] at hd ⊢
      replace hd : a.Decoded k := hd
      unfold finished
      split
      · next hok =>
        rw [sessions_release, hok]
        exact setPhase_sets hi (.finished a b)
      · exact .restarts (again_sets (by rfl) hi hd)
    · next hother =>
      refine hstays ?_
      cases hp : session.phase with
      | finishing a b => exact (hother a b hp).elim
      | _ => rfl

end SourceController

end HyperDht.Private.SourceRoute
