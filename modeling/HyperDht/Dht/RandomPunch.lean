import HyperDht.Lib.Modify

/-!
# Random punches

A node counts the random hole punches it has under way in `_randomPunches`. A
client counts its punch before it asks the other side to punch (`roundPunch`),
gives that up when the reply is in, and the puncher counts itself when it goes
random; a server checks the counter and punches in one turn. `Event` is any
interleaving of calls, replies, NAT results, aborts and destructions. The
counter is always the number of promises and randomized punchers
(`Balanced`), but a client whose exchange only turns random with the reply has
not checked it: `random_punches_iff` says when the limit holds.
-/

namespace HyperDht

namespace RandomPunch

/-! ## Punchers -/

def firewallOpen : Nat := 1

def firewallConsistent : Nat := 2

def firewallRandom : Nat := 3

def coerceFirewall (fw : Nat) : Nat := if fw = firewallOpen then firewallConsistent else fw

structure RemoteAddress where
  host : String
  verified : Bool
deriving DecidableEq, Repr

/-- The fields of a `Holepuncher` the counter depends on. `started` is `_punching`: whether
`punch` has run. -/
structure Puncher where
  isInitiator : Bool
  natFirewall : Nat
  natFrozen : Bool
  remoteFirewall : Nat
  remoteAddresses : List RemoteAddress
  remoteHolepunching : Bool
  punching : Bool
  connected : Bool
  destroyed : Bool
  randomized : Bool
  started : Bool
deriving DecidableEq, Repr

/-- What a remote payload tells a puncher. -/
structure RemoteUpdate where
  punching : Bool
  firewall : Nat
  hosts : List String
  verified : Option String
deriving DecidableEq, Repr

namespace Puncher

def new (isInitiator : Bool) (remoteFirewall : Nat) : Puncher where
  isInitiator := isInitiator
  natFirewall := 0
  natFrozen := false
  remoteFirewall := remoteFirewall
  remoteAddresses := []
  remoteHolepunching := false
  punching := false
  connected := false
  destroyed := false
  randomized := false
  started := false

def isVerified (p : Puncher) (host : String) : Bool :=
  p.remoteAddresses.any fun a => a.verified && a.host == host

def updateRemote (p : Puncher) (u : RemoteUpdate) : Puncher :=
  { p with
    remoteFirewall := u.firewall
    remoteAddresses := u.hosts.map fun host =>
      { host := host
        verified := u.verified == some host || p.isVerified host }
    remoteHolepunching := u.punching }

def done (p : Puncher) : Bool := p.destroyed || p.connected

/-- `_punch` has been called: it sets `punching` unless it returns at once. -/
def begun (p : Puncher) : Puncher :=
  { p with
    started := true
    punching := p.punching || (!p.done && !p.remoteAddresses.isEmpty) }

def unstable (p : Puncher) : Bool :=
  (decide (firewallRandom ≤ p.remoteFirewall) && decide (firewallRandom ≤ p.natFirewall)) ||
    p.natFirewall == 0

/-- Either side's firewall is random: the condition under which the counter is consulted. -/
def isRandom (p : Puncher) : Bool :=
  decide (firewallRandom ≤ p.remoteFirewall) || decide (firewallRandom ≤ p.natFirewall)

/-- Whether `_punch` reaches one of its two `_incrementRandomized` calls. -/
def goesRandom (p : Puncher) : Bool :=
  let localFirewall := coerceFirewall p.natFirewall
  let remote := coerceFirewall p.remoteFirewall
  !p.done && !p.remoteAddresses.isEmpty &&
    !(localFirewall == firewallConsistent && remote == firewallConsistent) &&
    p.remoteAddresses.any (·.verified) &&
    ((localFirewall == firewallConsistent && decide (firewallRandom ≤ remote)) ||
      (decide (firewallRandom ≤ localFirewall) && remote == firewallConsistent))

end Puncher

/-! ## The node -/

/-- How `updateHolepunch` ended for a request that said `punching`. -/
inductive Reply where
  | thrown
  | gone
  | tryLater
  | ok (update : RemoteUpdate)
deriving DecidableEq, Repr

/-- Where a `roundPunch` call stands: in its `while` loop, awaiting the reply, the reply is in but
the call has not gone on, sleeping before another round, finished. -/
inductive CallPhase where
  | delayed
  | awaiting (isRandom : Bool)
  | settled (isRandom : Bool) (reply : Reply)
  | later
  | finished
deriving DecidableEq, Repr

/-- A client's `roundPunch` call. -/
structure Call where
  puncher : Nat
  relayToken : Bool
  phase : CallPhase
deriving DecidableEq, Repr

/-- The node: the counter, its limit and the times that defer random punches. -/
structure Node where
  randomPunches : Int
  randomPunchLimit : Nat
  lastRandomPunch : Int
  randomPunchInterval : Int
  punchers : List Puncher
  calls : List Call
deriving DecidableEq, Repr

namespace Node

/-- A node with no punch under way. -/
def start (limit : Nat) (lastRandomPunch interval : Int) : Node where
  randomPunches := 0
  randomPunchLimit := limit
  lastRandomPunch := lastRandomPunch
  randomPunchInterval := interval
  punchers := []
  calls := []

def setPuncher (n : Node) (i : Nat) (f : Puncher → Puncher) : Node :=
  { n with punchers := n.punchers.modify i f }

def setPhase (n : Node) (j : Nat) (phase : CallPhase) : Node :=
  { n with calls := n.calls.modify j fun c => { c with phase := phase } }

/-- The condition on which both sides put a random punch off. -/
def blocked (n : Node) (now : Int) : Bool :=
  decide ((n.randomPunchLimit : Int) ≤ n.randomPunches) ||
    decide (now - n.lastRandomPunch < n.randomPunchInterval)

def incrementRandomized (n : Node) (i : Nat) : Node :=
  match n.punchers[i]? with
  | none => n
  | some p =>
    if p.randomized then n
    else
      { n.setPuncher i (fun p => { p with randomized := true }) with
        randomPunches := n.randomPunches + 1 }

def decrementRandomized (n : Node) (i : Nat) (now : Int) : Node :=
  match n.punchers[i]? with
  | none => n
  | some p =>
    if p.randomized then
      { n.setPuncher i (fun p => { p with randomized := false }) with
        lastRandomPunch := now
        randomPunches := n.randomPunches - 1 }
    else n

/-- `punch`: `_punch` runs once, up to its first `await`. -/
def punch (n : Node) (i : Nat) : Node :=
  match n.punchers[i]? with
  | none => n
  | some p =>
    if p.started then n
    else
      let n' := n.setPuncher i Puncher.begun
      if p.goesRandom then n'.incrementRandomized i else n'

/-- The `while` condition of `roundPunch` and what follows it: count the punch and ask. -/
def commit (n : Node) (j : Nat) (now : Int) : Node :=
  match n.calls[j]? with
  | none => n
  | some c =>
    if n.blocked now then
      if c.relayToken then n.setPhase j .delayed else n.setPhase j .finished
    else { n.setPhase j (.awaiting true) with randomPunches := n.randomPunches + 1 }

/-- `roundPunch` up to its first `await`. -/
def roundPunch (n : Node) (j : Nat) (now : Int) : Node :=
  match n.calls[j]? with
  | none => n
  | some c =>
    match n.punchers[c.puncher]? with
    | none => n
    | some p =>
      let n := n.setPuncher c.puncher fun p => { p with natFrozen := true }
      if p.isRandom then n.commit j now else n.setPhase j (.awaiting false)

/-- The reply comes in: a payload without error updates the puncher. -/
def reply (n : Node) (j : Nat) (r : Reply) : Node :=
  match n.calls[j]? with
  | none => n
  | some c =>
    match c.phase with
    | .awaiting isRandom =>
      let n := n.setPhase j (.settled isRandom r)
      match r with
      | .ok update => n.setPuncher c.puncher (·.updateRemote update)
      | _ => n
    | _ => n

/-- The rest of `roundPunch` after a reply that is neither missing nor an error. -/
def afterReply (n : Node) (j : Nat) (c : Call) (done : Bool) (r : Reply) : Node :=
  match r with
  | .thrown => n.setPhase j .finished
  | .gone => n.setPhase j .finished
  | .tryLater => if done then n.setPhase j .finished else n.setPhase j .later
  | .ok _ =>
    let n' := n.setPhase j .finished
    match n.punchers[c.puncher]? with
    | none => n'
    | some p => if done || !p.remoteHolepunching then n' else n'.punch c.puncher

/-- `roundPunch` goes on: the promise is given up and, where the other side punches, the puncher
starts. -/
def resume (n : Node) (j : Nat) (done : Bool) : Node :=
  match n.calls[j]? with
  | none => n
  | some c =>
    match c.phase with
    | .settled isRandom r =>
      let n := if isRandom then { n with randomPunches := n.randomPunches - 1 } else n
      n.afterReply j c done r
    | _ => n

/-- The part of `_onpeerholepunch` from its last `await` to the punch; `willing` is the user's
`holepunch` option. -/
def onpeerholepunch (n : Node) (i : Nat) (now : Int) (willing : Bool) : Node :=
  match n.punchers[i]? with
  | none => n
  | some p =>
    if p.destroyed || !p.remoteHolepunching || !willing then n
    else if p.isRandom && n.blocked now then n
    else n.punch i

def onholepunchmessage (n : Node) (i : Nat) (now : Int) : Node :=
  match n.punchers[i]? with
  | none => n
  | some p =>
    if !p.isInitiator || p.connected then n
    else
      (n.setPuncher i fun p => { p with connected := true, punching := false }).decrementRandomized
        i now

def destroy (n : Node) (i : Nat) (now : Int) : Node :=
  match n.punchers[i]? with
  | none => n
  | some p =>
    if p.destroyed then n
    else
      let n := n.setPuncher i fun p => { p with destroyed := true, punching := false }
      if p.connected then n else n.decrementRandomized i now

end Node

inductive Event where
  | puncher (isInitiator : Bool) (remoteFirewall : Nat)
  | natResult (i firewall : Nat)
  | reopen (i : Nat)
  | freeze (i : Nat)
  | updateRemote (i : Nat) (update : RemoteUpdate)
  | roundPunch (puncher : Nat) (relayToken : Bool) (now : Int)
  | retry (j : Nat) (now : Int)
  | giveUp (j : Nat)
  | reply (j : Nat) (r : Reply)
  | resume (j : Nat) (done : Bool)
  | again (j : Nat) (now : Int)
  | onpeerholepunch (i : Nat) (now : Int) (willing : Bool)
  | onholepunchmessage (i : Nat) (now : Int)
  | destroy (i : Nat) (now : Int)
deriving DecidableEq, Repr

namespace Node

def step (n : Node) : Event → Node
  | .puncher isInitiator remoteFirewall =>
    { n with punchers := n.punchers ++ [.new isInitiator remoteFirewall] }
  | .natResult i firewall =>
    n.setPuncher i fun p => if p.natFrozen then p else { p with natFirewall := firewall }
  | .reopen i =>
    n.setPuncher i fun p =>
      if p.unstable && !p.done && !p.punching then { p with natFirewall := 0, natFrozen := false }
      else p
  | .freeze i => n.setPuncher i fun p => { p with natFrozen := true }
  | .updateRemote i update => n.setPuncher i (·.updateRemote update)
  | .roundPunch puncher relayToken now =>
    let call : Call := { puncher := puncher, relayToken := relayToken, phase := .finished }
    Node.roundPunch { n with calls := n.calls ++ [call] } n.calls.length now
  | .retry j now => if n.calls[j]?.map Call.phase = some .delayed then n.commit j now else n
  | .giveUp j =>
    if n.calls[j]?.map Call.phase = some .delayed ∨ n.calls[j]?.map Call.phase = some .later then
      n.setPhase j .finished
    else n
  | .reply j r => n.reply j r
  | .resume j done => n.resume j done
  | .again j now => if n.calls[j]?.map Call.phase = some .later then n.roundPunch j now else n
  | .onpeerholepunch i now willing => n.onpeerholepunch i now willing
  | .onholepunchmessage i now => n.onholepunchmessage i now
  | .destroy i now => n.destroy i now

def run (n : Node) (es : List Event) : Node := es.foldl step n

end Node

/-! ## What the counter counts -/

/-- A call that has counted its punch and not given it up. -/
def CallPhase.promised : CallPhase → Bool
  | .awaiting isRandom => isRandom
  | .settled isRandom _ => isRandom
  | _ => false

/-- A call whose request has not been answered, or not gone on since. -/
def CallPhase.isAwaiting : CallPhase → Bool
  | .awaiting _ => true
  | .settled _ _ => true
  | _ => false

theorem CallPhase.isAwaiting_of_promised {phase : CallPhase} (h : phase.promised = true) :
    phase.isAwaiting = true := by
  cases phase <;> first | rfl | cases h

/-- Going random needs a random firewall on one side. -/
theorem Puncher.isRandom_of_goesRandom {p : Puncher} (h : p.goesRandom = true) :
    p.isRandom = true := by
  have coerced : ∀ fw, firewallRandom ≤ coerceFirewall fw → firewallRandom ≤ fw := by
    intro fw hfw
    unfold coerceFirewall at hfw
    split at hfw
    · exact absurd hfw (by decide)
    · exact hfw
  simp only [goesRandom, Bool.and_eq_true, Bool.or_eq_true, decide_eq_true_eq] at h
  simp only [isRandom, Bool.or_eq_true, decide_eq_true_eq]
  rcases h.2 with h | h
  · exact .inl (coerced _ h.2)
  · exact .inr (coerced _ h.1)

namespace Node

def promises (n : Node) : Nat := n.calls.countP (·.phase.promised)

def randomizedCount (n : Node) : Nat := n.punchers.countP (·.randomized)

/-- The counter less what it should count. -/
def excess (n : Node) : Int := n.randomPunches - n.promises - n.randomizedCount

/-- `n'` is a later state with the same excess and the counter moved by `d`. -/
structure Moved (n n' : Node) (d : Int) : Prop where
  excess : n'.excess = n.excess
  limit : n'.randomPunchLimit = n.randomPunchLimit
  count : n'.randomPunches = n.randomPunches + d

theorem Moved.refl (n : Node) : Moved n n 0 := ⟨rfl, rfl, by omega⟩

theorem Moved.trans {a b c : Node} {d e : Int} (h : Moved a b d) (k : Moved b c e) :
    Moved a c (d + e) :=
  ⟨k.excess.trans h.excess, k.limit.trans h.limit, by rw [k.count, h.count]; omega⟩

theorem randomizedCount_setPuncher (n : Node) (i : Nat) (f : Puncher → Puncher)
    (h : ∀ p, (f p).randomized = p.randomized) :
    (n.setPuncher i f).randomizedCount = n.randomizedCount := by
  have key : ∀ l : List Puncher, l.countP (·.randomized) = (l.map Puncher.randomized).countP id := by
    intro l
    rw [List.countP_map]
    rfl
  show (n.punchers.modify i f).countP _ = _
  rw [key, map_modify_of_same fun p _ => h p, ← key]
  rfl

theorem moved_setPuncher (n : Node) (i : Nat) (f : Puncher → Puncher)
    (h : ∀ p, (f p).randomized = p.randomized) : Moved n (n.setPuncher i f) 0 := by
  refine ⟨?_, rfl, by show n.randomPunches = _; omega⟩
  unfold excess
  rw [randomizedCount_setPuncher n i f h]
  rfl

theorem promises_setPhase {n : Node} {j : Nat} {c : Call} (hc : n.calls[j]? = some c)
    (phase : CallPhase) :
    (n.setPhase j phase).promises + c.phase.promised.toNat =
      n.promises + phase.promised.toNat :=
  countP_modify hc (·.phase.promised)

theorem moved_setPhase {n : Node} {j : Nat} {c : Call} (hc : n.calls[j]? = some c)
    (phase : CallPhase) (h : phase.promised = c.phase.promised) :
    Moved n (n.setPhase j phase) 0 := by
  refine ⟨?_, rfl, by show n.randomPunches = _; omega⟩
  have := promises_setPhase hc phase
  rw [h] at this
  have hr : (n.setPhase j phase).randomizedCount = n.randomizedCount := rfl
  have hp : (n.setPhase j phase).randomPunches = n.randomPunches := rfl
  unfold excess
  rw [hr, hp]
  omega

theorem moved_increment {n : Node} {i : Nat} {p : Puncher} (hp : n.punchers[i]? = some p)
    (hr : p.randomized = false) : Moved n (n.incrementRandomized i) 1 := by
  have hn : n.incrementRandomized i =
      { n.setPuncher i (fun p => { p with randomized := true }) with
        randomPunches := n.randomPunches + 1 } := by
    simp [incrementRandomized, hp, hr]
  rw [hn]
  refine ⟨?_, rfl, rfl⟩
  have := countP_modify (f := fun p : Puncher => { p with randomized := true }) hp (·.randomized)
  rw [hr] at this
  simp only [excess, promises, randomizedCount, setPuncher]
  simp only [Bool.toNat_false, Bool.toNat_true, Nat.add_zero] at this
  rw [this]
  omega

theorem moved_decrement (n : Node) (i : Nat) (now : Int) :
    ∃ d, Moved n (n.decrementRandomized i now) d ∧ d ≤ 0 := by
  unfold decrementRandomized
  split
  · exact ⟨0, .refl n, Int.le_refl 0⟩
  · next p hp =>
    split
    · next hr =>
      refine ⟨-1, ⟨?_, rfl, rfl⟩, by omega⟩
      have := countP_modify (f := fun p : Puncher => { p with randomized := false }) hp
        (·.randomized)
      rw [hr] at this
      simp only [excess, promises, randomizedCount, setPuncher]
      simp only [Bool.toNat_false, Bool.toNat_true, Nat.add_zero] at this
      rw [← this]
      omega
    · exact ⟨0, .refl n, Int.le_refl 0⟩

/-- Whether `punch` would raise the counter. -/
def raises (p : Puncher) : Bool := !p.started && p.goesRandom && !p.randomized

theorem moved_punch {n : Node} {i : Nat} {p : Puncher} (hp : n.punchers[i]? = some p) :
    Moved n (n.punch i) (if raises p then 1 else 0) := by
  unfold punch
  rw [hp]
  dsimp only
  by_cases hs : p.started = true
  · rw [if_pos hs]
    simpa [raises, hs] using Moved.refl n
  · have hset := moved_setPuncher n i Puncher.begun fun _ => rfl
    have hp' : (n.setPuncher i Puncher.begun).punchers[i]? = some p.begun := by
      simp [setPuncher, hp]
    rw [if_neg hs]
    by_cases hg : p.goesRandom = true
    · rw [if_pos hg]
      by_cases hr : p.randomized = true
      · have : (n.setPuncher i Puncher.begun).incrementRandomized i =
            n.setPuncher i Puncher.begun := by
          simp [incrementRandomized, hp', Puncher.begun, hr]
        rw [this]
        simpa [raises, hr] using hset
      · have hr' : p.randomized = false := by simpa using hr
        have := hset.trans (moved_increment hp' hr')
        simpa [raises, hs, hg, hr'] using this
    · rw [if_neg hg]
      simpa [raises, hg] using hset

/-! ## Every step -/

/-- A step raises the counter only below the limit, or not at all. -/
def Checked (n n' : Node) : Prop :=
  ∃ d : Int, Moved n n' d ∧ (d ≤ 0 ∨ d = 1 ∧ n.randomPunches < n.randomPunchLimit)

theorem Moved.checked {n n' : Node} {d : Int} (h : Moved n n' d) (hd : d ≤ 0) : Checked n n' :=
  ⟨d, h, .inl hd⟩

theorem Checked.after {a b c : Node} (h : Moved a b 0) (k : Checked b c) : Checked a c := by
  obtain ⟨d, hd, hle⟩ := k
  refine ⟨d, by simpa using h.trans hd, ?_⟩
  rcases hle with hle | ⟨hle, hlt⟩
  · exact .inl hle
  · have := h.count
    have := h.limit
    exact .inr ⟨hle, by omega⟩

theorem not_blocked {n : Node} {now : Int} (h : n.blocked now = false) :
    n.randomPunches < n.randomPunchLimit := by
  rw [blocked, Bool.or_eq_false_iff, decide_eq_false_iff_not] at h
  omega

theorem checked_commit {n : Node} {j : Nat} {c : Call} (hc : n.calls[j]? = some c)
    (hp : c.phase.promised = false) (now : Int) : Checked n (n.commit j now) := by
  unfold commit
  rw [hc]
  dsimp only
  split
  · split
    · exact (moved_setPhase hc .delayed hp.symm).checked (Int.le_refl 0)
    · exact (moved_setPhase hc .finished hp.symm).checked (Int.le_refl 0)
  · next hb =>
    refine ⟨1, ⟨?_, rfl, rfl⟩, .inr ⟨rfl, not_blocked (by simpa using hb)⟩⟩
    have := promises_setPhase hc (.awaiting true)
    rw [hp] at this
    simp only [CallPhase.promised, Bool.toNat_false, Bool.toNat_true, Nat.add_zero] at this
    simp only [excess, promises, randomizedCount, setPhase] at this ⊢
    rw [this]
    omega

theorem checked_roundPunch {n : Node} {j : Nat} {c : Call} (hc : n.calls[j]? = some c)
    (hp : c.phase.promised = false) (now : Int) : Checked n (n.roundPunch j now) := by
  unfold roundPunch
  rw [hc]
  dsimp only
  split
  · exact (Moved.refl n).checked (Int.le_refl 0)
  · next p hpun =>
    have hset := moved_setPuncher n c.puncher (fun p => { p with natFrozen := true }) fun _ => rfl
    have hc' : (n.setPuncher c.puncher fun p => { p with natFrozen := true }).calls[j]? =
        some c := hc
    split
    · exact (checked_commit hc' hp now).after hset
    · exact ((moved_setPhase hc' (.awaiting false) hp.symm).checked (Int.le_refl 0)).after hset

theorem moved_reply (n : Node) (j : Nat) (r : Reply) : Moved n (n.reply j r) 0 := by
  unfold reply
  split
  · exact .refl n
  · next c hc =>
    split
    · next isRandom hp =>
      have hphase : Moved n (n.setPhase j (.settled isRandom r)) 0 :=
        moved_setPhase hc _ (by rw [hp]; rfl)
      dsimp only
      split
      · next update =>
        have hset := moved_setPuncher (n.setPhase j (.settled isRandom (.ok update))) c.puncher
          (fun p => p.updateRemote update) fun _ => rfl
        simpa using hphase.trans hset
      · exact hphase
    · exact .refl n

/-- A call that did not count its punch goes on, and its puncher goes random: the one place where
the counter is raised without a check. -/
def unchecked (n : Node) : Event → Bool
  | .resume j done =>
    match n.calls[j]? with
    | none => false
    | some c =>
      match c.phase with
      | .settled false (.ok _) =>
        match n.punchers[c.puncher]? with
        | none => false
        | some p => !done && p.remoteHolepunching && raises p
      | _ => false
  | _ => false

/-- The node as `resume` leaves it when the promise has been given up. -/
def givenUp (n : Node) (isRandom : Bool) : Node :=
  if isRandom then { n with randomPunches := n.randomPunches - 1 } else n

theorem moved_givenUp {n : Node} {j : Nat} {c : Call} (hc : n.calls[j]? = some c)
    {isRandom : Bool} {r : Reply} (hp : c.phase = .settled isRandom r) (phase : CallPhase)
    (h : phase.promised = false) :
    Moved n ((n.givenUp isRandom).setPhase j phase) (if isRandom then -1 else 0) := by
  have hcount := promises_setPhase hc phase
  rw [h, hp] at hcount
  cases isRandom with
  | false => exact moved_setPhase hc phase (by rw [h, hp]; rfl)
  | true =>
    refine ⟨?_, rfl, rfl⟩
    simp only [CallPhase.promised, Bool.toNat_true, Bool.toNat_false, Nat.add_zero] at hcount
    simp only [excess, promises, randomizedCount, setPhase, givenUp, if_true] at hcount ⊢
    rw [← hcount]
    omega

/-- `resume` raises the counter by one exactly when it was `unchecked`. -/
theorem moved_resume (n : Node) (j : Nat) (done : Bool) :
    ∃ d : Int, Moved n (n.resume j done) d ∧
      if n.unchecked (.resume j done) then d = 1 else d ≤ 0 := by
  have idle : n.resume j done = n → n.unchecked (.resume j done) = false →
      ∃ d : Int, Moved n (n.resume j done) d ∧
        if n.unchecked (.resume j done) then d = 1 else d ≤ 0 := by
    intro hr hu
    exact ⟨0, by rw [hr]; exact .refl n, by rw [hu]; exact Int.le_refl 0⟩
  cases hc : n.calls[j]? with
  | none => exact idle (by simp [resume, hc]) (by simp [unchecked, hc])
  | some c =>
    cases hp : c.phase with
    | delayed => exact idle (by simp [resume, hc, hp]) (by simp [unchecked, hc, hp])
    | awaiting isRandom => exact idle (by simp [resume, hc, hp]) (by simp [unchecked, hc, hp])
    | later => exact idle (by simp [resume, hc, hp]) (by simp [unchecked, hc, hp])
    | finished => exact idle (by simp [resume, hc, hp]) (by simp [unchecked, hc, hp])
    | settled isRandom r =>
      have give := moved_givenUp hc hp
      have hres : n.resume j done = (n.givenUp isRandom).afterReply j c done r := by
        simp only [resume, hc, hp]
        rfl
      -- every outcome but a punch only gives the promise up
      have only : ∀ phase : CallPhase, phase.promised = false →
          n.resume j done = (n.givenUp isRandom).setPhase j phase →
          n.unchecked (.resume j done) = false → ∃ d : Int, Moved n (n.resume j done) d ∧
            if n.unchecked (.resume j done) then d = 1 else d ≤ 0 := by
        intro phase hphase hr hu
        refine ⟨_, by rw [hr]; exact give phase hphase, ?_⟩
        rw [hu]
        cases isRandom <;> decide
      have nothing : (∀ u, r ≠ .ok u) → n.unchecked (.resume j done) = false := by
        intro hne
        cases r with
        | ok update => exact absurd rfl (hne update)
        | thrown => simp [unchecked, hc, hp]
        | gone => simp [unchecked, hc, hp]
        | tryLater => simp [unchecked, hc, hp]
      cases r with
      | thrown => exact only .finished rfl hres (nothing fun u => by simp)
      | gone => exact only .finished rfl hres (nothing fun u => by simp)
      | tryLater =>
        cases done with
        | false => exact only .later rfl hres (nothing fun u => by simp)
        | true => exact only .finished rfl hres (nothing fun u => by simp)
      | ok update =>
        have hpunchers : (n.givenUp isRandom).punchers = n.punchers := by cases isRandom <;> rfl
        cases hpun : n.punchers[c.puncher]? with
        | none =>
          refine only .finished rfl ?_ ?_
          · rw [hres, afterReply, hpunchers, hpun]
          · cases isRandom <;> simp [unchecked, hc, hp, hpun]
        | some p =>
          have hun : n.unchecked (.resume j done) =
              (!isRandom && (!done && p.remoteHolepunching && raises p)) := by
            cases isRandom <;> simp [unchecked, hc, hp, hpun]
          by_cases hd : (done || !p.remoteHolepunching) = true
          · refine only .finished rfl ?_ ?_
            · rw [hres, afterReply, hpunchers, hpun]
              exact if_pos hd
            · rw [hun]
              cases done <;> cases hh : p.remoteHolepunching <;> simp [hh] at hd ⊢
          · have hpun' : ((n.givenUp isRandom).setPhase j .finished).punchers[c.puncher]? = some p := by
              show (n.givenUp isRandom).punchers[c.puncher]? = some p
              rw [hpunchers, hpun]
            have hpunch : n.resume j done =
                ((n.givenUp isRandom).setPhase j .finished).punch c.puncher := by
              rw [hres, afterReply, hpunchers, hpun]
              exact if_neg hd
            have hyes : n.unchecked (.resume j done) = (!isRandom && raises p) := by
              rw [hun]
              cases done <;> cases hh : p.remoteHolepunching <;> simp [hh] at hd ⊢
            refine ⟨_, by rw [hpunch]; exact (give .finished rfl).trans (moved_punch hpun'), ?_⟩
            rw [hyes]
            cases isRandom <;> cases raises p <;> decide

/-- The server checks the counter in the turn in which it punches. -/
theorem checked_onpeerholepunch (n : Node) (i : Nat) (now : Int) (willing : Bool) :
    Checked n (n.onpeerholepunch i now willing) := by
  unfold onpeerholepunch
  split
  · exact (Moved.refl n).checked (Int.le_refl 0)
  · next p hp =>
    split
    · exact (Moved.refl n).checked (Int.le_refl 0)
    · split
      · exact (Moved.refl n).checked (Int.le_refl 0)
      · next hb =>
        refine ⟨_, moved_punch hp, ?_⟩
        cases hr : raises p with
        | false => exact .inl (Int.le_refl 0)
        | true =>
          rw [raises, Bool.and_eq_true, Bool.and_eq_true] at hr
          rw [Puncher.isRandom_of_goesRandom hr.1.2, Bool.true_and] at hb
          exact .inr ⟨rfl, not_blocked (by simpa using hb)⟩

theorem checked_onholepunchmessage (n : Node) (i : Nat) (now : Int) :
    Checked n (n.onholepunchmessage i now) := by
  unfold onholepunchmessage
  split
  · exact (Moved.refl n).checked (Int.le_refl 0)
  · split
    · exact (Moved.refl n).checked (Int.le_refl 0)
    · obtain ⟨d, hd, hle⟩ := moved_decrement
        (n.setPuncher i fun p => { p with connected := true, punching := false }) i now
      refine (hd.checked hle).after ?_
      exact moved_setPuncher n i _ fun _ => rfl

theorem checked_destroy (n : Node) (i : Nat) (now : Int) : Checked n (n.destroy i now) := by
  unfold destroy
  split
  · exact (Moved.refl n).checked (Int.le_refl 0)
  · split
    · exact (Moved.refl n).checked (Int.le_refl 0)
    · have hset := moved_setPuncher n i (fun p => { p with destroyed := true, punching := false })
        fun _ => rfl
      dsimp only
      split
      · exact hset.checked (Int.le_refl 0)
      · obtain ⟨d, hd, hle⟩ := moved_decrement
          (n.setPuncher i fun p => { p with destroyed := true, punching := false }) i now
        exact (hd.checked hle).after hset

/-- Every event but an unchecked one raises the counter only below the limit. -/
theorem step_checked (n : Node) (e : Event) (h : n.unchecked e = false) :
    Checked n (n.step e) := by
  have same : Checked n n := (Moved.refl n).checked (Int.le_refl 0)
  have quiet : ∀ (i : Nat) (f : Puncher → Puncher), (∀ p, (f p).randomized = p.randomized) →
      Checked n (n.setPuncher i f) := by
    intro i f hf
    exact (moved_setPuncher n i f hf).checked (Int.le_refl 0)
  have phase : ∀ (j : Nat) (q : CallPhase), n.calls[j]?.map Call.phase = some q →
      ∃ c, n.calls[j]? = some c ∧ c.phase = q := by
    intro j q hq
    exact Option.map_eq_some_iff.mp hq
  cases e with
  | puncher isInitiator remoteFirewall =>
    refine Moved.checked (d := 0) ⟨?_, rfl, by show n.randomPunches = _; omega⟩ (Int.le_refl 0)
    simp [step, excess, promises, randomizedCount, Puncher.new]
  | natResult i firewall =>
    refine quiet i _ fun p => ?_
    split <;> rfl
  | reopen i =>
    refine quiet i _ fun p => ?_
    split <;> rfl
  | freeze i => exact quiet i _ fun _ => rfl
  | updateRemote i update => exact quiet i _ fun _ => rfl
  | roundPunch puncher relayToken now =>
    refine (checked_roundPunch (c := ⟨puncher, relayToken, .finished⟩) (by simp) rfl now).after ?_
    refine ⟨?_, rfl, by show n.randomPunches = _; omega⟩
    simp [excess, promises, randomizedCount, CallPhase.promised]
  | retry j now =>
    show Checked n (if _ then _ else _)
    split
    · next hq =>
      obtain ⟨c, hc, hp⟩ := phase j _ hq
      exact checked_commit hc (by rw [hp]; rfl) now
    · exact same
  | giveUp j =>
    show Checked n (if _ then _ else _)
    split
    · next hq =>
      have : ∃ c, n.calls[j]? = some c ∧ c.phase.promised = false := by
        rcases hq with hq | hq
        · obtain ⟨c, hc, hp⟩ := phase j _ hq
          exact ⟨c, hc, by rw [hp]; rfl⟩
        · obtain ⟨c, hc, hp⟩ := phase j _ hq
          exact ⟨c, hc, by rw [hp]; rfl⟩
      obtain ⟨c, hc, hp⟩ := this
      exact (moved_setPhase hc .finished hp.symm).checked (Int.le_refl 0)
    · exact same
  | reply j r => exact (moved_reply n j r).checked (Int.le_refl 0)
  | resume j done =>
    obtain ⟨d, hd, hle⟩ := moved_resume n j done
    rw [h] at hle
    exact hd.checked hle
  | again j now =>
    show Checked n (if _ then _ else _)
    split
    · next hq =>
      obtain ⟨c, hc, hp⟩ := phase j _ hq
      exact checked_roundPunch hc (by rw [hp]; rfl) now
    · exact same
  | onpeerholepunch i now willing => exact checked_onpeerholepunch n i now willing
  | onholepunchmessage i now => exact checked_onholepunchmessage n i now
  | destroy i now => exact checked_destroy n i now

/-! ## The limit -/

/-- No call awaits its reply and no puncher is randomized. -/
def Idle (n : Node) : Prop :=
  (∀ c ∈ n.calls, c.phase.isAwaiting = false) ∧ ∀ p ∈ n.punchers, p.randomized = false

/-- The counter is within its limit, and zero on an idle node. -/
structure Within (n : Node) : Prop where
  nonneg : 0 ≤ n.randomPunches
  limited : n.randomPunches ≤ n.randomPunchLimit
  balanced : n.Idle → n.randomPunches = 0

/-- An unchecked step is taken below the limit. -/
def calm (n : Node) (e : Event) : Bool :=
  !n.unchecked e || decide (n.randomPunches < n.randomPunchLimit)

def calmRun (n : Node) : List Event → Bool
  | [] => true
  | e :: es => n.calm e && (n.step e).calmRun es

/-- A balanced counter is never negative and zero on an idle node. -/
theorem within_iff {n : Node} (h : n.excess = 0) :
    n.Within ↔ n.randomPunches ≤ n.randomPunchLimit := by
  refine ⟨fun hw => hw.limited, fun hle => ⟨?_, hle, ?_⟩⟩
  · unfold excess at h
    omega
  · rintro ⟨hcalls, hpunchers⟩
    have hp : n.promises = 0 := by
      rw [promises, List.countP_eq_zero]
      intro c hc hprom
      have := hcalls c hc
      rw [CallPhase.isAwaiting_of_promised hprom] at this
      cases this
    have hr : n.randomizedCount = 0 := by
      rw [randomizedCount, List.countP_eq_zero]
      intro p hp
      simpa using hpunchers p hp
    unfold excess at h
    rw [hp, hr] at h
    omega

/-- Every step keeps the balance; an unchecked one raises the counter, the others respect the
limit. -/
theorem step_balance (n : Node) (e : Event) :
    (n.step e).excess = n.excess ∧ (n.step e).randomPunchLimit = n.randomPunchLimit ∧
      if n.unchecked e then (n.step e).randomPunches = n.randomPunches + 1
      else n.randomPunches ≤ n.randomPunchLimit →
        (n.step e).randomPunches ≤ n.randomPunchLimit := by
  cases hu : n.unchecked e with
  | false =>
    obtain ⟨d, hd, hle⟩ := step_checked n e hu
    refine ⟨hd.excess, hd.limit, ?_⟩
    intro hw
    have := hd.count
    omega
  | true =>
    cases e with
    | resume j done =>
      obtain ⟨d, hd, hone⟩ := moved_resume n j done
      rw [hu] at hone
      refine ⟨hd.excess, hd.limit, ?_⟩
      have := hd.count
      rw [if_pos rfl] at hone ⊢
      show (n.resume j done).randomPunches = _
      rw [this, hone]
    | _ => cases hu

theorem within_run_iff {n : Node} (h : n.excess = 0) (hw : n.randomPunches ≤ n.randomPunchLimit)
    (es : List Event) :
    (∀ pre post, es = pre ++ post → (n.run pre).Within) ↔ n.calmRun es = true := by
  induction es generalizing n with
  | nil =>
    refine ⟨fun _ => rfl, fun _ pre post hs => ?_⟩
    obtain ⟨rfl, -⟩ := List.append_eq_nil_iff.mp hs.symm
    exact (within_iff h).mpr hw
  | cons e es ih =>
    obtain ⟨hex, hlim, hstep⟩ := step_balance n e
    have h' : (n.step e).excess = 0 := hex.trans h
    rw [calmRun, Bool.and_eq_true]
    constructor
    · intro hall
      have hfirst := (hall [e] es rfl).limited
      have hle : (n.step e).randomPunches ≤ (n.step e).randomPunchLimit := hfirst
      refine ⟨?_, (ih h' hle).mp fun pre post hs => hall (e :: pre) post (by rw [hs]; rfl)⟩
      unfold calm
      cases hu : n.unchecked e with
      | false => rfl
      | true =>
        rw [hu, if_pos rfl] at hstep
        simp only [Bool.not_true, Bool.false_or, decide_eq_true_eq]
        omega
    · rintro ⟨hcalm, hrest⟩
      have hle : (n.step e).randomPunches ≤ (n.step e).randomPunchLimit := by
        rw [hlim]
        unfold calm at hcalm
        cases hu : n.unchecked e with
        | false =>
          rw [hu] at hstep
          exact hstep hw
        | true =>
          rw [hu, if_pos rfl] at hstep
          simp only [hu, Bool.not_true, Bool.false_or, decide_eq_true_eq] at hcalm
          omega
      intro pre post hs
      cases pre with
      | nil => exact (within_iff h).mpr hw
      | cons e' pre =>
        rw [List.cons_append] at hs
        obtain ⟨rfl, hs'⟩ := List.cons.inj hs
        exact (ih h' hle).mpr hrest pre post hs'

/-- Random punches stay within their limit and are balanced, in every state of a run, if and only
if each call that did not count its punch before the request, and goes random on the reply, goes
on below the limit. -/
theorem random_punches_iff (limit : Nat) (lastRandomPunch interval : Int) (es : List Event) :
    (∀ pre post, es = pre ++ post →
      ((start limit lastRandomPunch interval).run pre).Within) ↔
      (start limit lastRandomPunch interval).calmRun es = true :=
  within_run_iff rfl (Int.natCast_nonneg limit) es

/-- One punch goes random properly; a second call, consistent when it asked, is told `RANDOM`
and a verified address by its reply. -/
def overLimitRun : List Event :=
  let told : RemoteUpdate :=
    { punching := true, firewall := 3, hosts := ["10.0.0.1"], verified := some "10.0.0.1" }
  [.puncher true 3, .natResult 0 2, .roundPunch 0 true 100000, .reply 0 (.ok told),
   .resume 0 false,
   .puncher true 2, .natResult 1 2, .roundPunch 1 true 100000, .reply 1 (.ok told),
   .resume 1 false]

/-- With the limit of one, two random punches run at once. -/
theorem over_limit : ((start 1 0 20000).run overLimitRun).randomPunches = 2 ∧
    ¬ ((start 1 0 20000).run overLimitRun).Within := by
  have h : ((start 1 0 20000).run overLimitRun).randomPunches = 2 := by decide +kernel
  have hl : ((start 1 0 20000).run overLimitRun).randomPunchLimit = 1 := by decide +kernel
  refine ⟨h, fun hw => ?_⟩
  have := hw.limited
  rw [h, hl] at this
  exact absurd this (by decide)

end Node

end RandomPunch

end HyperDht
