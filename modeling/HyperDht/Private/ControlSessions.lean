import Mathlib.Data.List.Induction
import HyperDht.Lib.JsMap
import HyperDht.Lib.Modify
import HyperDht.Private.CellCodec
import HyperDht.Private.RelayDiversity

/-!
# Control sessions of a relay

A relay answers every incoming control connection inside a `ControlSession`.
Admission takes one slot for the remote key and one for the observed address
bucket; `_runControlSession` gives both back in `finish`, after the handler's
promise and, on failure, the status reply have settled. `cancel` destroys what
the session owns and leaves the slots alone. `Event` lists what can happen to
the controller between two turns, `Exact` is the accounting invariant and
`control_quotas_exact` says it holds in every state of every run.
-/

namespace HyperDht.Private

namespace Control

/-! ## Peer buckets -/

/-- The keys of `controlPeers`: `'key:' + …` and `'address:' + …`. -/
inductive PeerKey where
  | key (publicKey : Bytes)
  | address (value : String)
deriving DecidableEq, Repr

/-- What admission reads of a new stream. `raw` is the remote host and port of the stream's
`rawStream`. -/
structure Incoming where
  stream : Nat
  remotePublicKey : Option Bytes
  raw : Option (String × Int)
deriving DecidableEq, Repr

/-! ## Sessions -/

/-- Where `_runControlSession` stands: awaiting the handler, the handler's promise settled but
its continuation not yet run, awaiting `_rejectControl`, returned. -/
inductive Phase where
  | handling
  | settled (ok : Bool)
  | rejecting
  | done
deriving DecidableEq, Repr

inductive StreamEvent where
  | «end»
  | error
  | close
deriving DecidableEq, Repr

/-- A `ControlSession` and the frame of its `_runControlSession` call. -/
structure Session where
  stream : Nat
  peerKeys : List PeerKey
  resources : List Nat
  streams : List Nat
  cancelled : Bool
  finished : Bool
  failure : Bool
  timer : Bool
  listeners : List StreamEvent
  phase : Phase
deriving DecidableEq, Repr

/-- `options.controlLimits` as far as admission reads it. -/
structure Limits where
  maxSessions : Nat
  maxPeerSessions : Nat
deriving DecidableEq, Repr

/-- The controller's defaulting of the two limits with `||`. -/
def Limits.orDefault (l : Limits) : Limits where
  maxSessions := if l.maxSessions = 0 then 256 else l.maxSessions
  maxPeerSessions := if l.maxPeerSessions = 0 then 128 else l.maxPeerSessions

/-- The part of the controller that control sessions live in. `sessions` is the heap of all
`ControlSession` objects ever made, `wiped` the resources and streams destroyed so far and
`released` the sessions whose slots `finish` gave back. A count of `none` is `NaN`. -/
structure Controller where
  isIP : String → Nat
  relay : Bool
  controlLimits : Limits
  allowLoopback : Bool
  destroyed : Bool
  suspended : Bool
  controlSessions : List Nat
  controlPeers : JsMap PeerKey (Option Int)
  controlStreams : JsMap Nat Nat
  controlTasks : List Nat
  sessions : List Session
  wiped : List Nat
  released : List Nat

/-- A controller as its constructor leaves it. -/
def Controller.start (isIP : String → Nat) (relay allowLoopback : Bool) (limits : Limits) :
    Controller where
  isIP := isIP
  relay := relay
  controlLimits := limits.orDefault
  allowLoopback := allowLoopback
  destroyed := false
  suspended := false
  controlSessions := []
  controlPeers := .empty
  controlStreams := .empty
  controlTasks := []
  sessions := []
  wiped := []
  released := []

namespace Controller

/-- `controlPeers.get(peer) || 0`. -/
def slots (m : JsMap PeerKey (Option Int)) (peer : PeerKey) : Int :=
  ((m.get? peer).getD none).getD 0

/-- `controlPeers.set(peer, (controlPeers.get(peer) || 0) + 1)`. -/
def takeSlot (m : JsMap PeerKey (Option Int)) (peer : PeerKey) : JsMap PeerKey (Option Int) :=
  m.set peer (some (slots m peer + 1))

/-- The loop body of `finish`: `undefined - 1` is `NaN`, which is not `0`. -/
def giveSlot (m : JsMap PeerKey (Option Int)) (peer : PeerKey) : JsMap PeerKey (Option Int) :=
  let remaining := ((m.get? peer).getD none).map (· - 1)
  if remaining = some 0 then m.delete peer else m.set peer remaining

def update (c : Controller) (i : Nat) (f : Session → Session) : Controller :=
  { c with sessions := c.sessions.modify i f }

/-- The condition under which `check` throws. -/
def barred (c : Controller) (s : Session) : Bool :=
  s.cancelled || s.finished || c.destroyed || c.suspended

/-- `track`: a session that may not go on destroys the resource instead. -/
def track (c : Controller) (i : Nat) (resource : Nat) : Controller :=
  match c.sessions[i]? with
  | none => c
  | some s =>
    if c.barred s then
      { c.update i (fun s => { s with failure := true }) with wiped := c.wiped ++ [resource] }
    else c.update i fun s => { s with resources := s.resources.insert resource }

/-- `ownStream`: `track`, and when that did not throw, the stream is the session's. -/
def ownStream (c : Controller) (i : Nat) (stream : Nat) : Controller :=
  match c.sessions[i]? with
  | none => c
  | some s =>
    let c' := c.track i stream
    if c.barred s then c'
    else
      { c'.update i (fun s => { s with streams := s.streams.insert stream }) with
        controlStreams := c'.controlStreams.set stream i }

def cancel (c : Controller) (i : Nat) : Controller :=
  match c.sessions[i]? with
  | none => c
  | some s =>
    if s.cancelled || s.finished then c
    else
      { c.update i (fun s => { s with cancelled := true, failure := true, timer := false }) with
        wiped := c.wiped ++ s.resources }

def finish (c : Controller) (i : Nat) : Controller :=
  match c.sessions[i]? with
  | none => c
  | some s =>
    if s.finished then c
    else
      { c.update i (fun s =>
          { s with
            finished := true
            timer := false
            listeners := []
            streams := []
            resources := [] }) with
        controlStreams := s.streams.foldl (fun m stream => m.delete stream) c.controlStreams
        controlSessions := c.controlSessions.erase i
        controlPeers := s.peerKeys.foldl giveSlot c.controlPeers
        released := c.released ++ [i] }

/-- The two buckets of a stream, or `none` where `_admitControlSession` gives up or throws. -/
def peersOf (c : Controller) (incoming : Incoming) : Option (List PeerKey) :=
  match incoming.remotePublicKey with
  | none => none
  | some publicKey =>
    if publicKey.length ≠ 32 then none
    else
      match incoming.raw with
      | none => none
      | some (remoteHost, remotePort) =>
        match relayDiversityKey c.isIP remoteHost remotePort c.allowLoopback with
        | .error _ => none
        | .ok value => some [.key publicKey, .address value]

/-- `new ControlSession(this, stream, peers)`. -/
def createSession (c : Controller) (stream : Nat) (peerKeys : List PeerKey) : Controller :=
  let i := c.sessions.length
  let s : Session :=
    { stream := stream
      peerKeys := peerKeys
      resources := []
      streams := []
      cancelled := false
      finished := false
      failure := false
      timer := true
      listeners := [.end, .error, .close]
      phase := .handling }
  let c := { c with
    sessions := c.sessions ++ [s]
    controlSessions := c.controlSessions ++ [i]
    controlPeers := peerKeys.foldl takeSlot c.controlPeers }
  c.ownStream i stream

/-- `_admitControlSession`: the new controller and whether a session was made. -/
def admitControlSession (c : Controller) (incoming : Incoming) : Controller × Bool :=
  if !c.relay || c.destroyed || c.suspended then (c, false)
  else if c.controlLimits.maxSessions ≤ c.controlSessions.length then (c, false)
  else
    match c.peersOf incoming with
    | none => (c, false)
    | some peers =>
      if peers.any fun peer => decide ((c.controlLimits.maxPeerSessions : Int) ≤
          slots c.controlPeers peer)
      then (c, false)
      else (c.createSession incoming.stream peers, true)

/-- `_onRelayConnection`. Either way a task is kept for the stream: the session's or the
bare `_rejectControl`. -/
def onRelayConnection (c : Controller) (incoming : Incoming) : Controller :=
  let c' := (c.admitControlSession incoming).1
  { c' with controlTasks := c'.controlTasks.insert incoming.stream }

def cancelControlSessions (c : Controller) : Controller :=
  let c' := c.controlSessions.foldl cancel c
  { c' with wiped := c'.wiped ++ c'.controlTasks }

/-- `suspend`, up to its first `await`. -/
def suspend (c : Controller) : Controller :=
  if c.destroyed || c.suspended then c
  else cancelControlSessions { c with suspended := true }

def resume (c : Controller) : Controller :=
  if c.destroyed || !c.suspended then c else { c with suspended := false }

/-- `destroy`, as far as it touches control sessions. -/
def destroy (c : Controller) : Controller :=
  if c.destroyed then c else cancelControlSessions { c with destroyed := true }

/-- The continuation of `_runControlSession` once the handler's promise has settled: a handler
that returned and a passing `check` finish the session, anything else starts the rejection. -/
def afterHandler (c : Controller) (i : Nat) : Controller :=
  match c.sessions[i]? with
  | none => c
  | some s =>
    match s.phase with
    | .settled ok =>
      if ok && !c.barred s then (c.finish i).update i fun s => { s with phase := .done }
      else c.update i fun s => { s with failure := s.failure || ok, phase := .rejecting }
    | _ => c

/-- The continuation once `_rejectControl` has settled: `cancel`, then `finish`. -/
def afterReject (c : Controller) (i : Nat) : Controller :=
  match c.sessions[i]? with
  | none => c
  | some s =>
    match s.phase with
    | .rejecting => ((c.cancel i).finish i).update i fun s => { s with phase := .done }
    | _ => c

def settle (c : Controller) (i : Nat) (ok : Bool) : Controller :=
  match c.sessions[i]? with
  | none => c
  | some s =>
    match s.phase with
    | .handling => c.update i fun s => { s with phase := .settled ok }
    | _ => c

/-- A stream event reaches a session that still listens to it (`once`). -/
def streamEvent (c : Controller) (i : Nat) (kind : StreamEvent) : Controller :=
  match c.sessions[i]? with
  | none => c
  | some s =>
    if kind ∈ s.listeners then
      (c.update i fun s => { s with listeners := s.listeners.erase kind }).cancel i
    else c

/-- The session timer fires. -/
def timeout (c : Controller) (i : Nat) : Controller :=
  match c.sessions[i]? with
  | none => c
  | some s =>
    if s.timer then (c.update i fun s => { s with timer := false }).cancel i else c

/-- A stream's task settles and leaves `controlTasks`: at once for a refused stream, after
`finish` for a session's. -/
def taskSettled (c : Controller) (stream : Nat) : Controller :=
  if c.sessions.any fun s => s.stream == stream && s.phase != .done then c
  else { c with controlTasks := c.controlTasks.erase stream }

end Controller

/-- What can happen between two turns of the event loop. The five handlers appear through what
they do to their session: they track and release resources, own further streams, and settle. -/
inductive Event where
  | connection (incoming : Incoming)
  | track (i resource : Nat)
  | untrack (i resource : Nat)
  | ownStream (i stream : Nat)
  | settle (i : Nat) (ok : Bool)
  | afterHandler (i : Nat)
  | afterReject (i : Nat)
  | taskSettled (stream : Nat)
  | stream (i : Nat) (kind : StreamEvent)
  | timeout (i : Nat)
  | suspend
  | resume
  | destroy
deriving DecidableEq, Repr

namespace Controller

def step (c : Controller) : Event → Controller
  | .connection incoming => c.onRelayConnection incoming
  | .track i resource => c.track i resource
  | .untrack i resource => c.update i fun s => { s with resources := s.resources.erase resource }
  | .ownStream i stream => c.ownStream i stream
  | .settle i ok => c.settle i ok
  | .afterHandler i => c.afterHandler i
  | .afterReject i => c.afterReject i
  | .taskSettled stream => c.taskSettled stream
  | .stream i kind => c.streamEvent i kind
  | .timeout i => c.timeout i
  | .suspend => c.suspend
  | .resume => c.resume
  | .destroy => c.destroy

def run (c : Controller) (es : List Event) : Controller := es.foldl step c

end Controller

/-! ## What the accounts depend on -/

/-- The fields of a session that the accounts are about. -/
def Session.account (s : Session) : List PeerKey × Bool × Bool :=
  (s.peerKeys, s.finished, s.phase == .done)

namespace Controller

/-- The unfinished sessions that hold a slot of `peer`. -/
def held (c : Controller) (peer : PeerKey) : Nat :=
  c.sessions.countP fun s => !s.finished && decide (peer ∈ s.peerKeys)

/-- Whether session `i` exists and has finished. -/
def finishedAt (c : Controller) (i : Nat) : Bool := (c.sessions[i]?.map Session.finished).getD false

structure Exact (c : Controller) : Prop where
  members : ∀ i : Nat,
    i ∈ c.controlSessions ↔ ∃ s : Session, c.sessions[i]? = some s ∧ s.finished = false
  nodup : c.controlSessions.Nodup
  total : c.controlSessions.length ≤ c.controlLimits.maxSessions
  peers : ∀ p : PeerKey,
    c.controlPeers.get? p = if c.held p = 0 then none else some (some (c.held p : Int))
  bucket : ∀ p : PeerKey, c.held p ≤ c.controlLimits.maxPeerSessions
  released : ∀ i : Nat, c.released.count i = (c.finishedAt i).toNat
  keys : ∀ s ∈ c.sessions, s.peerKeys.Nodup
  phase : ∀ s ∈ c.sessions, s.finished = (s.phase == .done)

structure SameAccounts (c c' : Controller) : Prop where
  controlSessions : c'.controlSessions = c.controlSessions
  controlPeers : c'.controlPeers = c.controlPeers
  controlLimits : c'.controlLimits = c.controlLimits
  released : c'.released = c.released
  sessions : c'.sessions.map Session.account = c.sessions.map Session.account

theorem SameAccounts.refl (c : Controller) : SameAccounts c c := ⟨rfl, rfl, rfl, rfl, rfl⟩

theorem SameAccounts.trans {a b c : Controller} (h : SameAccounts a b) (k : SameAccounts b c) :
    SameAccounts a c where
  controlSessions := k.controlSessions.trans h.controlSessions
  controlPeers := k.controlPeers.trans h.controlPeers
  controlLimits := k.controlLimits.trans h.controlLimits
  released := k.released.trans h.released
  sessions := k.sessions.trans h.sessions

theorem SameAccounts.held {c c' : Controller} (h : SameAccounts c c') (p : PeerKey) :
    c'.held p = c.held p := by
  have key : ∀ c : Controller, c.held p =
      (c.sessions.map Session.account).countP fun a => !a.2.1 && decide (p ∈ a.1) := by
    intro c
    rw [List.countP_map]
    rfl
  rw [key, key, h.sessions]

theorem SameAccounts.lookup {c c' : Controller} (h : SameAccounts c c') (i : Nat) :
    c'.sessions[i]?.map Session.account = c.sessions[i]?.map Session.account := by
  rw [← List.getElem?_map, ← List.getElem?_map, h.sessions]

theorem SameAccounts.finishedAt {c c' : Controller} (h : SameAccounts c c') (i : Nat) :
    c'.finishedAt i = c.finishedAt i := by
  have key : ∀ c : Controller, c.finishedAt i =
      ((c.sessions[i]?.map Session.account).map fun a => a.2.1).getD false := by
    intro c
    rw [Option.map_map]
    rfl
  rw [key, key, h.lookup]

theorem SameAccounts.mem {c c' : Controller} (h : SameAccounts c c') {s' : Session}
    (hs : s' ∈ c'.sessions) : ∃ s ∈ c.sessions, s.account = s'.account := by
  have : s'.account ∈ c.sessions.map Session.account := by
    rw [← h.sessions]
    exact List.mem_map_of_mem hs
  simpa using this

theorem Exact.same {c c' : Controller} (h : c.Exact) (k : SameAccounts c c') : c'.Exact where
  members := by
    intro i
    rw [k.controlSessions, h.members]
    have := k.lookup i
    constructor
    · rintro ⟨s, hs, hf⟩
      rw [hs, Option.map_some, Option.map_eq_some_iff] at this
      obtain ⟨s', hs', ha⟩ := this
      exact ⟨s', hs', (congrArg (fun a => a.2.1) ha).trans hf⟩
    · rintro ⟨s, hs, hf⟩
      rw [hs, Option.map_some, eq_comm, Option.map_eq_some_iff] at this
      obtain ⟨s', hs', ha⟩ := this
      exact ⟨s', hs', (congrArg (fun a => a.2.1) ha).trans hf⟩
  nodup := by rw [k.controlSessions]; exact h.nodup
  total := by rw [k.controlSessions, k.controlLimits]; exact h.total
  peers := by
    intro p
    rw [k.controlPeers, k.held, h.peers]
  bucket := by
    intro p
    rw [k.held, k.controlLimits]
    exact h.bucket p
  released := by
    intro i
    rw [k.released, k.finishedAt, h.released]
  keys := by
    intro s' hs'
    obtain ⟨s, hs, ha⟩ := k.mem hs'
    have hk : s.peerKeys = s'.peerKeys := congrArg Prod.fst ha
    rw [← hk]
    exact h.keys s hs
  phase := by
    intro s' hs'
    obtain ⟨s, hs, ha⟩ := k.mem hs'
    have hf : s.finished = s'.finished := congrArg (fun a => a.2.1) ha
    have hp : (s.phase == .done) = (s'.phase == .done) := congrArg (fun a => a.2.2) ha
    rw [← hf, ← hp]
    exact h.phase s hs

/-! ## Steps that leave the accounts alone -/

/-- Neither the accounts nor the progress of any session changed. -/
structure Unmoved (c c' : Controller) : Prop extends SameAccounts c c' where
  phases : c'.sessions.map Session.phase = c.sessions.map Session.phase

theorem Unmoved.refl (c : Controller) : Unmoved c c := ⟨.refl c, rfl⟩

theorem Unmoved.trans {a b c : Controller} (h : Unmoved a b) (k : Unmoved b c) : Unmoved a c :=
  ⟨h.toSameAccounts.trans k.toSameAccounts, k.phases.trans h.phases⟩

theorem sameAccounts_update {c : Controller} {i : Nat} {f : Session → Session}
    (h : ∀ s, c.sessions[i]? = some s → (f s).account = s.account) :
    SameAccounts c (c.update i f) :=
  ⟨rfl, rfl, rfl, rfl, map_modify_of_same h⟩

theorem unmoved_update (c : Controller) (i : Nat) (f : Session → Session)
    (h : ∀ s, (f s).account = s.account) (hp : ∀ s, (f s).phase = s.phase) :
    Unmoved c (c.update i f) :=
  ⟨sameAccounts_update fun s _ => h s, map_modify_of_same fun s _ => hp s⟩

theorem Unmoved.of_fields {c c' c'' : Controller} (h : Unmoved c c')
    (h₁ : c''.controlSessions = c'.controlSessions) (h₂ : c''.controlPeers = c'.controlPeers)
    (h₃ : c''.controlLimits = c'.controlLimits) (h₄ : c''.released = c'.released)
    (h₅ : c''.sessions = c'.sessions) : Unmoved c c'' :=
  h.trans ⟨⟨h₁, h₂, h₃, h₄, congrArg (List.map Session.account) h₅⟩,
    congrArg (List.map Session.phase) h₅⟩

theorem unmoved_track (c : Controller) (i resource : Nat) : Unmoved c (c.track i resource) := by
  unfold track
  split
  · exact .refl c
  · split
    · exact (unmoved_update c i (fun s => { s with failure := true }) (fun _ => rfl)
        fun _ => rfl).of_fields rfl rfl rfl rfl rfl
    · exact unmoved_update c i _ (fun _ => rfl) fun _ => rfl

theorem unmoved_ownStream (c : Controller) (i stream : Nat) :
    Unmoved c (c.ownStream i stream) := by
  unfold ownStream
  split
  · exact .refl c
  · have ht := unmoved_track c i stream
    dsimp only
    split
    · exact ht
    · have hu := unmoved_update (c.track i stream) i
        (fun s => { s with streams := s.streams.insert stream }) (fun _ => rfl) fun _ => rfl
      exact (ht.trans hu).of_fields rfl rfl rfl rfl rfl

theorem unmoved_cancel (c : Controller) (i : Nat) : Unmoved c (c.cancel i) := by
  unfold cancel
  split
  · exact .refl c
  · split
    · exact .refl c
    · have hu := unmoved_update c i
        (fun s => { s with cancelled := true, failure := true, timer := false }) (fun _ => rfl)
        fun _ => rfl
      exact hu.of_fields rfl rfl rfl rfl rfl

theorem unmoved_cancelControlSessions (c : Controller) : Unmoved c c.cancelControlSessions := by
  have key : ∀ (is : List Nat) (c : Controller), Unmoved c (is.foldl cancel c) := by
    intro is
    induction is with
    | nil => exact .refl
    | cons i is ih =>
      intro c
      exact (unmoved_cancel c i).trans (ih _)
  exact (key c.controlSessions c).of_fields rfl rfl rfl rfl rfl

theorem unmoved_suspend (c : Controller) : Unmoved c c.suspend := by
  unfold suspend
  split
  · exact .refl c
  · refine Unmoved.trans ?_ (unmoved_cancelControlSessions { c with suspended := true })
    exact (Unmoved.refl c).of_fields rfl rfl rfl rfl rfl

theorem unmoved_destroy (c : Controller) : Unmoved c c.destroy := by
  unfold destroy
  split
  · exact .refl c
  · refine Unmoved.trans ?_ (unmoved_cancelControlSessions { c with destroyed := true })
    exact (Unmoved.refl c).of_fields rfl rfl rfl rfl rfl

theorem unmoved_resume (c : Controller) : Unmoved c c.resume := by
  unfold resume
  split
  · exact .refl c
  · exact (Unmoved.refl c).of_fields rfl rfl rfl rfl rfl

theorem unmoved_streamEvent (c : Controller) (i : Nat) (kind : StreamEvent) :
    Unmoved c (c.streamEvent i kind) := by
  unfold streamEvent
  split
  · exact .refl c
  · split
    · refine Unmoved.trans ?_ (unmoved_cancel _ i)
      exact unmoved_update c i _ (fun _ => rfl) fun _ => rfl
    · exact .refl c

theorem unmoved_timeout (c : Controller) (i : Nat) : Unmoved c (c.timeout i) := by
  unfold timeout
  split
  · exact .refl c
  · split
    · refine Unmoved.trans ?_ (unmoved_cancel _ i)
      exact unmoved_update c i _ (fun _ => rfl) fun _ => rfl
    · exact .refl c

theorem unmoved_taskSettled (c : Controller) (stream : Nat) :
    Unmoved c (c.taskSettled stream) := by
  unfold taskSettled
  split
  · exact .refl c
  · exact (Unmoved.refl c).of_fields rfl rfl rfl rfl rfl

theorem sameAccounts_settle (c : Controller) (i : Nat) (ok : Bool) :
    SameAccounts c (c.settle i ok) := by
  unfold settle
  split
  · exact .refl c
  · next s hs =>
    split
    · next hp =>
      refine sameAccounts_update fun s' hs' => ?_
      obtain rfl : s = s' := Option.some.inj (hs.symm.trans hs')
      simp [Session.account, hp]
    · exact .refl c

/-! ## Taking and giving slots -/

/-- What taking a slot makes of a bucket's entry. -/
def taken (e : Option (Option Int)) : Option (Option Int) := some (some ((e.getD none).getD 0 + 1))

/-- What giving a slot back makes of a bucket's entry. -/
def given (e : Option (Option Int)) : Option (Option Int) :=
  if (e.getD none).map (· - 1) = some 0 then none else some ((e.getD none).map (· - 1))

theorem get?_takeSlot (m : JsMap PeerKey (Option Int)) (k k' : PeerKey) :
    (takeSlot m k).get? k' = if k' = k then taken (m.get? k) else m.get? k' := by
  rw [takeSlot, JsMap.get?_set]
  rfl

theorem get?_giveSlot (m : JsMap PeerKey (Option Int)) (k k' : PeerKey) :
    (giveSlot m k).get? k' = if k' = k then given (m.get? k) else m.get? k' := by
  unfold giveSlot given
  dsimp only
  by_cases h : ((m.get? k).getD none).map (· - 1) = some 0
  · rw [if_pos h, if_pos h, JsMap.get?_delete]
  · rw [if_neg h, if_neg h, JsMap.get?_set]

/-- The entry of a bucket with `n` unfinished sessions. -/
def entryOf (n : Nat) : Option (Option Int) := if n = 0 then none else some (some (n : Int))

theorem taken_entryOf (n : Nat) : taken (entryOf n) = entryOf (n + 1) := by
  unfold taken entryOf
  by_cases h : n = 0
  · simp [h]
  · simp [h]

theorem given_entryOf (n : Nat) : given (entryOf (n + 1)) = entryOf n := by
  unfold given entryOf
  by_cases h : n = 0
  · simp [h]
  · simp [h]

theorem slots_entryOf {m : JsMap PeerKey (Option Int)} {p : PeerKey} {n : Nat}
    (h : m.get? p = entryOf n) : slots m p = n := by
  unfold slots
  rw [h]
  unfold entryOf
  by_cases h : n = 0
  · simp [h]
  · simp [h]

/-- The controller right after the constructor took the slots, before `ownStream`. -/
def opened (c : Controller) (s : Session) : Controller :=
  { c with
    sessions := c.sessions ++ [s]
    controlSessions := c.controlSessions ++ [c.sessions.length]
    controlPeers := s.peerKeys.foldl takeSlot c.controlPeers }

theorem held_opened (c : Controller) {s : Session} (hf : s.finished = false) (p : PeerKey) :
    (c.opened s).held p = c.held p + if p ∈ s.peerKeys then 1 else 0 := by
  simp [held, opened, List.countP_append, List.countP_singleton, hf]

theorem finishedAt_opened (c : Controller) {s : Session} (hf : s.finished = false) (i : Nat) :
    (c.opened s).finishedAt i = c.finishedAt i := by
  unfold finishedAt opened
  dsimp only
  rw [List.getElem?_append]
  split
  · rfl
  · next hi =>
    rw [List.getElem?_eq_none (by omega : c.sessions.length ≤ i)]
    by_cases h0 : i = c.sessions.length
    · simp [h0, hf]
    · rw [List.getElem?_eq_none (by simp; omega)]

/-- A new session keeps the accounts exact when admission found room in every bucket. -/
theorem Exact.opened {c : Controller} (h : c.Exact) {s : Session} (hf : s.finished = false)
    (hp : (s.phase == .done) = false) (hn : s.peerKeys.Nodup)
    (hm : c.controlSessions.length < c.controlLimits.maxSessions)
    (hb : ∀ p ∈ s.peerKeys, c.held p < c.controlLimits.maxPeerSessions) : (c.opened s).Exact where
  members := by
    intro i
    have hlt : ∀ j, j ∈ c.controlSessions → j < c.sessions.length := by
      intro j hj
      obtain ⟨s', hs', -⟩ := (h.members j).mp hj
      exact (List.getElem?_eq_some_iff.mp hs').1
    show i ∈ c.controlSessions ++ [c.sessions.length] ↔ _
    rw [List.mem_append, List.mem_singleton, h.members]
    simp only [Controller.opened, List.getElem?_append]
    constructor
    · rintro (⟨s', hs', hf'⟩ | rfl)
      · exact ⟨s', by rw [if_pos (List.getElem?_eq_some_iff.mp hs').1, hs'], hf'⟩
      · exact ⟨s, by simp, hf⟩
    · rintro ⟨s', hs', hf'⟩
      split at hs'
      · exact .inl ⟨s', hs', hf'⟩
      · next hi =>
        have : i - c.sessions.length < 1 := by
          simpa using (List.getElem?_eq_some_iff.mp hs').1
        exact .inr (by omega)
  nodup := by
    refine h.nodup.append (List.nodup_singleton _) ?_
    intro i hi hj
    obtain ⟨s', hs', -⟩ := (h.members i).mp hi
    have := (List.getElem?_eq_some_iff.mp hs').1
    rw [List.mem_singleton] at hj
    omega
  total := by
    show (c.controlSessions ++ [c.sessions.length]).length ≤ c.controlLimits.maxSessions
    rw [List.length_append, List.length_singleton]
    exact hm
  peers := by
    intro p
    have hget := JsMap.get?_foldl get?_takeSlot hn c.controlPeers p
    show (s.peerKeys.foldl takeSlot c.controlPeers).get? p = entryOf _
    rw [hget, held_opened c hf, (h.peers p : _ = entryOf (c.held p))]
    split
    · exact taken_entryOf _
    · rfl
  bucket := by
    intro p
    rw [held_opened c hf]
    show _ ≤ c.controlLimits.maxPeerSessions
    split
    · next hmem => exact hb p hmem
    · exact h.bucket p
  released := by
    intro i
    rw [finishedAt_opened c hf]
    exact h.released i
  keys := by
    intro s' hs'
    rcases List.mem_append.mp hs' with hs' | hs'
    · exact h.keys s' hs'
    · rw [List.mem_singleton.mp hs']
      exact hn
  phase := by
    intro s' hs'
    rcases List.mem_append.mp hs' with hs' | hs'
    · exact h.phase s' hs'
    · rw [List.mem_singleton.mp hs', hf, hp]

/-- `finish` followed by the return of `_runControlSession`. -/
def closed (c : Controller) (i : Nat) : Controller :=
  (c.finish i).update i fun s => { s with phase := .done }

def closedSession (s : Session) : Session :=
  { s with
    finished := true
    timer := false
    listeners := []
    streams := []
    resources := []
    phase := .done }

section Closed

variable {c : Controller} {i : Nat} {s : Session}

theorem closed_sessions (hs : c.sessions[i]? = some s) (hf : s.finished = false) :
    (c.closed i).sessions = c.sessions.modify i closedSession := by
  simp only [closed, finish, hs, hf, update]
  apply List.ext_getElem?
  intro j
  simp only [List.getElem?_modify]
  by_cases hij : i = j
  · subst hij
    simp [hs, closedSession]
  · simp [hij]

theorem closed_fields (hs : c.sessions[i]? = some s) (hf : s.finished = false) :
    (c.closed i).controlSessions = c.controlSessions.erase i ∧
      (c.closed i).controlPeers = s.peerKeys.foldl giveSlot c.controlPeers ∧
      (c.closed i).released = c.released ++ [i] ∧
      (c.closed i).controlLimits = c.controlLimits := by
  simp [closed, finish, hs, hf, update]

theorem held_closed (hs : c.sessions[i]? = some s) (hf : s.finished = false) (p : PeerKey) :
    (c.closed i).held p + (if p ∈ s.peerKeys then 1 else 0) = c.held p := by
  have h := countP_modify (f := closedSession) hs
    fun s => !s.finished && decide (p ∈ s.peerKeys)
  rw [held, closed_sessions hs hf]
  simp only [hf, closedSession, Bool.not_false, Bool.not_true, Bool.true_and, Bool.false_and,
    Bool.toNat_false, Nat.add_zero] at h
  rw [held, ← h]
  by_cases hp : p ∈ s.peerKeys
  · simp [hp]
  · simp [hp]

theorem finishedAt_closed (hs : c.sessions[i]? = some s) (hf : s.finished = false) (j : Nat) :
    (c.closed i).finishedAt j = if i = j then true else c.finishedAt j := by
  rw [finishedAt, closed_sessions hs hf, List.getElem?_modify]
  by_cases hij : i = j
  · subst hij
    simp [hs, closedSession]
  · simp [hij, finishedAt]

/-- Finishing an unfinished session keeps the accounts exact. -/
theorem Exact.closed (h : c.Exact) (hs : c.sessions[i]? = some s) (hf : s.finished = false) :
    (c.closed i).Exact where
  members := by
    intro j
    have hcs := (closed_fields hs hf).1
    rw [hcs, h.nodup.mem_erase_iff, h.members, closed_sessions hs hf, List.getElem?_modify]
    by_cases hij : i = j
    · subst hij
      simp [hs, closedSession]
    · simp [hij, Ne.symm hij]
  nodup := by
    have hcs := (closed_fields hs hf).1
    rw [hcs]
    exact h.nodup.erase i
  total := by
    have hcs := (closed_fields hs hf).1
    have hl := (closed_fields hs hf).2.2.2
    rw [hcs, hl]
    exact (List.length_erase_le).trans h.total
  peers := by
    intro p
    have hcp := (closed_fields hs hf).2.1
    have hn := h.keys s (List.mem_of_getElem? hs)
    have hget := JsMap.get?_foldl get?_giveSlot hn c.controlPeers p
    have hh := held_closed hs hf p
    rw [hcp, hget, (h.peers p : _ = entryOf (c.held p)), ← hh]
    show _ = entryOf _
    by_cases hp : p ∈ s.peerKeys
    · simp only [hp, if_true]
      exact given_entryOf _
    · simp only [hp, if_false, Nat.add_zero]
      rfl
  bucket := by
    intro p
    have hl := (closed_fields hs hf).2.2.2
    have hh := held_closed hs hf p
    have := h.bucket p
    rw [hl]
    omega
  released := by
    intro j
    have hr := (closed_fields hs hf).2.2.1
    have h0 : c.finishedAt i = false := by simp [finishedAt, hs, hf]
    rw [hr, List.count_append, h.released, finishedAt_closed hs hf, List.count_singleton]
    by_cases hij : i = j
    · subst hij
      simp [h0]
    · simp [hij]
  keys := by
    intro s' hs'
    rw [closed_sessions hs hf] at hs'
    obtain ⟨j, hj⟩ := List.mem_iff_getElem?.mp hs'
    rw [List.getElem?_modify] at hj
    by_cases hij : i = j
    · subst hij
      obtain rfl : closedSession s = s' := by simpa [hs] using hj
      exact h.keys s (List.mem_of_getElem? hs)
    · exact h.keys s' (List.mem_of_getElem? (by simpa [hij] using hj))
  phase := by
    intro s' hs'
    rw [closed_sessions hs hf] at hs'
    obtain ⟨j, hj⟩ := List.mem_iff_getElem?.mp hs'
    rw [List.getElem?_modify] at hj
    by_cases hij : i = j
    · subst hij
      obtain rfl : closedSession s = s' := by simpa [hs] using hj
      rfl
    · exact h.phase s' (List.mem_of_getElem? (by simpa [hij] using hj))

end Closed

/-! ## Every step -/

/-- The two buckets of one stream are different keys. -/
theorem nodup_peersOf {c : Controller} {incoming : Incoming} {peers : List PeerKey}
    (h : c.peersOf incoming = some peers) : peers.Nodup := by
  unfold peersOf at h
  split at h
  · cases h
  · split at h
    · cases h
    · split at h
      · cases h
      · split at h
        · cases h
        · cases h
          simp

theorem Exact.admitControlSession {c : Controller} (h : c.Exact) (incoming : Incoming) :
    (c.admitControlSession incoming).1.Exact := by
  unfold Controller.admitControlSession
  split
  · exact h
  · split
    · exact h
    · next hm =>
      split
      · exact h
      · next peers hp =>
        split
        · exact h
        · next hb =>
          simp only [List.any_eq_true, decide_eq_true_eq, not_exists, not_and] at hb
          refine (h.opened (s := _) rfl rfl (nodup_peersOf hp) (by omega) ?_).same
            (unmoved_ownStream _ _ _).toSameAccounts
          intro p hp'
          have hs := slots_entryOf (h.peers p : _ = entryOf (c.held p))
          have := hb p hp'
          omega

theorem Exact.afterHandler {c : Controller} (h : c.Exact) (i : Nat) : (c.afterHandler i).Exact := by
  unfold Controller.afterHandler
  split
  · exact h
  · next s hs =>
    have hd := h.phase s (List.mem_of_getElem? hs)
    split
    · next ok hp =>
      rw [hp] at hd
      split
      · exact h.closed hs hd
      · refine h.same (sameAccounts_update fun s' hs' => ?_)
        obtain rfl : s = s' := Option.some.inj (hs.symm.trans hs')
        simp [Session.account, hp]
    · exact h

theorem lookup_cancel {c : Controller} {i : Nat} {s : Session} (hs : c.sessions[i]? = some s) :
    ∃ s', (c.cancel i).sessions[i]? = some s' ∧ s'.account = s.account ∧ s'.phase = s.phase := by
  unfold cancel
  rw [hs]
  dsimp only
  split
  · exact ⟨s, hs, rfl, rfl⟩
  · refine ⟨{ s with cancelled := true, failure := true, timer := false }, ?_, rfl, rfl⟩
    simp [update, hs]

theorem Exact.afterReject {c : Controller} (h : c.Exact) (i : Nat) : (c.afterReject i).Exact := by
  unfold Controller.afterReject
  split
  · exact h
  · next s hs =>
    have hd := h.phase s (List.mem_of_getElem? hs)
    split
    · next hp =>
      rw [hp] at hd
      obtain ⟨s', hs', ha, -⟩ := lookup_cancel hs
      have hf : s'.finished = false := (congrArg (fun a => a.2.1) ha).trans hd
      exact (h.same (unmoved_cancel c i).toSameAccounts).closed hs' hf
    · exact h

/-- One event keeps the accounts exact. -/
theorem Exact.step {c : Controller} (h : c.Exact) (e : Event) : (c.step e).Exact := by
  cases e with
  | connection incoming =>
    have := h.admitControlSession incoming
    exact this.same ⟨rfl, rfl, rfl, rfl, rfl⟩
  | track i resource => exact h.same (unmoved_track c i resource).toSameAccounts
  | untrack i resource => exact h.same (sameAccounts_update fun _ _ => rfl)
  | ownStream i stream => exact h.same (unmoved_ownStream c i stream).toSameAccounts
  | settle i ok => exact h.same (sameAccounts_settle c i ok)
  | afterHandler i => exact h.afterHandler i
  | afterReject i => exact h.afterReject i
  | taskSettled stream => exact h.same (unmoved_taskSettled c stream).toSameAccounts
  | stream i kind => exact h.same (unmoved_streamEvent c i kind).toSameAccounts
  | timeout i => exact h.same (unmoved_timeout c i).toSameAccounts
  | suspend => exact h.same (unmoved_suspend c).toSameAccounts
  | resume => exact h.same (unmoved_resume c).toSameAccounts
  | destroy => exact h.same (unmoved_destroy c).toSameAccounts

theorem exact_start (isIP : String → Nat) (relay allowLoopback : Bool) (limits : Limits) :
    (start isIP relay allowLoopback limits).Exact := by
  constructor <;> simp [start, held, finishedAt]

theorem Exact.run {c : Controller} (h : c.Exact) (es : List Event) : (c.run es).Exact := by
  induction es generalizing c with
  | nil => exact h
  | cons e es ih => exact ih (h.step e)

/-! ## When slots come back -/

def phaseAt (c : Controller) (i : Nat) : Option Phase := c.sessions[i]?.map Session.phase

theorem Unmoved.phaseAt {c c' : Controller} (h : Unmoved c c') (j : Nat) :
    c'.phaseAt j = c.phaseAt j := by
  unfold Controller.phaseAt
  rw [← List.getElem?_map, ← List.getElem?_map, h.phases]

theorem phaseAt_update_ne (c : Controller) {i j : Nat} (f : Session → Session) (h : i ≠ j) :
    (c.update i f).phaseAt j = c.phaseAt j := by
  simp [phaseAt, update, h]

theorem phaseAt_closed (c : Controller) {i j : Nat} (h : i ≠ j) :
    (c.closed i).phaseAt j = c.phaseAt j := by
  refine (phaseAt_update_ne _ _ h).trans ?_
  unfold finish
  split
  · rfl
  · split
    · rfl
    · exact phaseAt_update_ne c _ h

/-- What one event can do to the progress of a session: nothing, create it in `handling`,
settle its handler, or go on once the handler has settled. -/
theorem phaseAt_step (c : Controller) (e : Event) (j : Nat) :
    (c.step e).phaseAt j = c.phaseAt j ∨
      (c.phaseAt j = none ∧ (c.step e).phaseAt j = some .handling) ∨
      (c.phaseAt j = some .handling ∧ ∃ ok, e = .settle j ok) ∨
      ∃ q, c.phaseAt j = some q ∧ q ≠ .handling := by
  have at' : ∀ {s : Session}, c.sessions[j]? = some s → c.phaseAt j = some s.phase := by
    intro s hs
    rw [phaseAt, hs, Option.map_some]
  cases e with
  | connection incoming =>
    show (c.admitControlSession incoming).1.phaseAt j = _ ∨
      (_ ∧ (c.admitControlSession incoming).1.phaseAt j = _) ∨ _
    unfold admitControlSession
    split
    · exact .inl rfl
    · split
      · exact .inl rfl
      · split
        · exact .inl rfl
        · split
          · exact .inl rfl
          · rw [createSession, (unmoved_ownStream _ _ _).phaseAt j]
            simp only [phaseAt, List.getElem?_append]
            rcases Nat.lt_trichotomy j c.sessions.length with hj | hj | hj
            · exact .inl (by rw [if_pos hj])
            · exact .inr (.inl ⟨by rw [List.getElem?_eq_none (by omega)]; rfl, by simp [hj]⟩)
            · refine .inl ?_
              rw [if_neg (by omega), List.getElem?_eq_none (by simp; omega),
                List.getElem?_eq_none (by omega)]
  | track i resource => exact .inl ((unmoved_track c i resource).phaseAt j)
  | untrack i resource =>
    refine .inl (Unmoved.phaseAt ?_ j)
    exact unmoved_update c i _ (fun _ => rfl) fun _ => rfl
  | ownStream i stream => exact .inl ((unmoved_ownStream c i stream).phaseAt j)
  | settle i ok =>
    by_cases hij : i = j
    · subst hij
      cases hs : c.sessions[i]? with
      | none => exact .inl (by simp [step, settle, hs])
      | some s =>
        by_cases hp : s.phase = .handling
        · exact .inr (.inr (.inl ⟨by rw [at' hs, hp], ok, rfl⟩))
        · exact .inr (.inr (.inr ⟨s.phase, at' hs, hp⟩))
    · refine .inl ?_
      show (c.settle i ok).phaseAt j = _
      unfold settle
      split
      · rfl
      · split
        · exact phaseAt_update_ne c _ hij
        · rfl
  | afterHandler i =>
    show (c.afterHandler i).phaseAt j = _ ∨ _
    unfold afterHandler
    split
    · exact .inl rfl
    · next s hs =>
      split
      · next ok hp =>
        by_cases hij : i = j
        · subst hij
          exact .inr (.inr (.inr ⟨.settled ok, by rw [at' hs, hp], by simp⟩))
        · split
          · exact .inl (phaseAt_closed c hij)
          · exact .inl (phaseAt_update_ne c _ hij)
      · exact .inl rfl
  | afterReject i =>
    show (c.afterReject i).phaseAt j = _ ∨ _
    unfold afterReject
    split
    · exact .inl rfl
    · next s hs =>
      split
      · next hp =>
        by_cases hij : i = j
        · subst hij
          exact .inr (.inr (.inr ⟨.rejecting, by rw [at' hs, hp], by simp⟩))
        · exact .inl ((phaseAt_closed _ hij).trans ((unmoved_cancel c i).phaseAt j))
      · exact .inl rfl
  | taskSettled stream => exact .inl ((unmoved_taskSettled c stream).phaseAt j)
  | stream i kind => exact .inl ((unmoved_streamEvent c i kind).phaseAt j)
  | timeout i => exact .inl ((unmoved_timeout c i).phaseAt j)
  | suspend => exact .inl ((unmoved_suspend c).phaseAt j)
  | resume => exact .inl ((unmoved_resume c).phaseAt j)
  | destroy => exact .inl ((unmoved_destroy c).phaseAt j)

/-- A session past `handling` was once in it, and its handler settled there. -/
theorem handler_settled {c : Controller} (h0 : c.sessions = []) (es : List Event) {j : Nat}
    {q : Phase} (h : (c.run es).phaseAt j = some q) (hq : q ≠ .handling) :
    ∃ (pre post : List Event) (ok : Bool), es = pre ++ .settle j ok :: post ∧
      (c.run pre).phaseAt j = some .handling := by
  induction es using List.reverseRecOn generalizing q with
  | nil => simp [run, phaseAt, h0] at h
  | append_singleton es e ih =>
    have hrun : c.run (es ++ [e]) = (c.run es).step e := by simp [run]
    rw [hrun] at h
    rcases phaseAt_step (c.run es) e j with hs | ⟨-, hs⟩ | ⟨hp, ok, rfl⟩ | ⟨q', hp, hq'⟩
    · obtain ⟨pre, post, ok, rfl, hpre⟩ := ih (hs ▸ h) hq
      exact ⟨pre, post ++ [e], ok, by simp, hpre⟩
    · exact absurd (Option.some.inj (h.symm.trans hs)) hq
    · exact ⟨es, [], ok, by simp, hp⟩
    · obtain ⟨pre, post, ok, rfl, hpre⟩ := ih hp hq'
      exact ⟨pre, post ++ [e], ok, by simp, hpre⟩

theorem phaseAt_update_self {c : Controller} {j : Nat} {s : Session} (h : c.sessions[j]? = some s)
    (f : Session → Session) : (c.update j f).phaseAt j = some (f s).phase := by
  simp [phaseAt, update, h]

theorem phaseAt_closed_self {c : Controller} {j : Nat} {s : Session}
    (h : c.sessions[j]? = some s) (hf : s.finished = false) :
    (c.closed j).phaseAt j = some .done := by
  rw [phaseAt, closed_sessions h hf]
  simp [h, closedSession]

theorem rejecting_finishes {c : Controller} (h : c.Exact) {j : Nat}
    (hj : c.phaseAt j = some .rejecting) : (c.afterReject j).phaseAt j = some .done := by
  obtain ⟨s, hs, hp⟩ := Option.map_eq_some_iff.mp hj
  obtain ⟨s', hs', ha, -⟩ := lookup_cancel hs
  have hf : s'.finished = false := by
    have hd := h.phase s (List.mem_of_getElem? hs)
    rw [hp] at hd
    exact (congrArg (fun a => a.2.1) ha).trans hd
  have : c.afterReject j = (c.cancel j).closed j := by
    simp [afterReject, hs, hp, closed]
  rw [this]
  exact phaseAt_closed_self hs' hf

/-- A session whose handler has settled is done after the rest of `_runControlSession`. -/
theorem settled_finishes {c : Controller} (h : c.Exact) {j : Nat} {q : Phase}
    (hj : c.phaseAt j = some q) (hq : q ≠ .handling) :
    (c.run [.afterHandler j, .afterReject j]).phaseAt j = some .done := by
  show ((c.afterHandler j).afterReject j).phaseAt j = some .done
  obtain ⟨s, hs, rfl⟩ := Option.map_eq_some_iff.mp hj
  have hd := h.phase s (List.mem_of_getElem? hs)
  have stay : ∀ {c : Controller} {j : Nat}, c.phaseAt j = some .done → c.afterReject j = c := by
    intro c j hd
    obtain ⟨s, hs, hp⟩ := Option.map_eq_some_iff.mp hd
    simp [afterReject, hs, hp]
  cases hp : s.phase with
  | handling => exact absurd hp hq
  | done =>
    have : c.afterHandler j = c := by simp [afterHandler, hs, hp]
    rw [this, stay (by rw [hj, hp]), hj, hp]
  | rejecting =>
    have : c.afterHandler j = c := by simp [afterHandler, hs, hp]
    rw [this]
    exact rejecting_finishes h (by rw [hj, hp])
  | settled ok =>
    rw [hp] at hd
    have he := h.afterHandler j
    by_cases hok : (ok && !c.barred s) = true
    · have hc : c.afterHandler j = c.closed j := by simp [afterHandler, hs, hp, hok, closed]
      have hdone := phaseAt_closed_self hs hd
      rw [hc, stay hdone]
      exact hdone
    · refine rejecting_finishes he ?_
      have hc : c.afterHandler j =
          c.update j fun s => { s with failure := s.failure || ok, phase := .rejecting } := by
        simp [afterHandler, hs, hp, hok]
      rw [hc]
      exact phaseAt_update_self hs _

theorem controlLimits_finish (c : Controller) (i : Nat) :
    (c.finish i).controlLimits = c.controlLimits := by
  unfold finish
  split
  · rfl
  · split <;> rfl

theorem controlLimits_step (c : Controller) (e : Event) :
    (c.step e).controlLimits = c.controlLimits := by
  cases e with
  | connection incoming =>
    show (c.admitControlSession incoming).1.controlLimits = _
    unfold admitControlSession
    split
    · rfl
    · split
      · rfl
      · split
        · rfl
        · split
          · rfl
          · exact (unmoved_ownStream _ _ _).controlLimits
  | track i resource => exact (unmoved_track c i resource).controlLimits
  | untrack i resource => rfl
  | ownStream i stream => exact (unmoved_ownStream c i stream).controlLimits
  | settle i ok => exact (sameAccounts_settle c i ok).controlLimits
  | afterHandler i =>
    show (c.afterHandler i).controlLimits = _
    unfold afterHandler
    split
    · rfl
    · split
      · split
        · exact controlLimits_finish c i
        · rfl
      · rfl
  | afterReject i =>
    show (c.afterReject i).controlLimits = _
    unfold afterReject
    split
    · rfl
    · split
      · exact (controlLimits_finish _ i).trans (unmoved_cancel c i).controlLimits
      · rfl
  | taskSettled stream => exact (unmoved_taskSettled c stream).controlLimits
  | stream i kind => exact (unmoved_streamEvent c i kind).controlLimits
  | timeout i => exact (unmoved_timeout c i).controlLimits
  | suspend => exact (unmoved_suspend c).controlLimits
  | resume => exact (unmoved_resume c).controlLimits
  | destroy => exact (unmoved_destroy c).controlLimits

theorem controlLimits_run (c : Controller) (es : List Event) :
    (c.run es).controlLimits = c.controlLimits := by
  induction es generalizing c with
  | nil => rfl
  | cons e es ih => exact (ih (c.step e)).trans (controlLimits_step c e)

/-- A session's slots have come back exactly when it is done. -/
theorem Exact.released_of_phase {c : Controller} (h : c.Exact) {i : Nat} {q : Phase}
    (hi : c.phaseAt i = some q) : c.released.count i = (q == .done).toNat := by
  obtain ⟨s, hs, rfl⟩ := Option.map_eq_some_iff.mp hi
  rw [h.released, finishedAt, hs, ← h.phase s (List.mem_of_getElem? hs)]
  rfl

theorem Exact.phase_of_released {c : Controller} (h : c.Exact) {i : Nat} (hi : i ∈ c.released) :
    c.phaseAt i = some .done := by
  have hpos := List.count_pos_iff.mpr hi
  rw [h.released] at hpos
  cases hs : c.sessions[i]? with
  | none => simp [finishedAt, hs] at hpos
  | some s =>
    have hf : s.finished = true := by
      cases hf : s.finished with
      | true => rfl
      | false => simp [finishedAt, hs, hf] at hpos
    have hp := h.phase s (List.mem_of_getElem? hs)
    rw [hf, eq_comm, beq_iff_eq] at hp
    rw [phaseAt, hs, Option.map_some, hp]

/-- Control-session quotas are exact in every run: every bucket of `controlPeers` counts its
unfinished sessions and holds no zero, negative or `NaN` entry, `controlSessions` is the set of
unfinished sessions, both limits hold, a session's slots come back exactly once, only after its
handler settled, and surely once the rest of `_runControlSession` has run; `cancel` alone
releases nothing. -/
theorem control_quotas_exact (isIP : String → Nat) (relay allowLoopback : Bool)
    (limits : Limits) (es : List Event) :
    let c₀ := start isIP relay allowLoopback limits
    let c := c₀.run es
    (∀ p, c.controlPeers.get? p = if c.held p = 0 then none else some (some (c.held p : Int))) ∧
      (c.controlSessions.Nodup ∧
        ∀ i, i ∈ c.controlSessions ↔ ∃ s, c.sessions[i]? = some s ∧ s.finished = false) ∧
      c.controlSessions.length ≤ limits.orDefault.maxSessions ∧
      (∀ p, c.held p ≤ limits.orDefault.maxPeerSessions) ∧
      (∀ i s, c.sessions[i]? = some s → c.released.count i = if s.finished then 1 else 0) ∧
      (∀ i ∈ c.released, ∃ (pre post : List Event) (ok : Bool),
        es = pre ++ .settle i ok :: post ∧ (c₀.run pre).phaseAt i = some .handling ∧
          i ∉ (c₀.run pre).released) ∧
      (∀ i s, c.sessions[i]? = some s → s.phase ≠ .handling →
        (c.run [.afterHandler i, .afterReject i]).released.count i = 1) ∧
      ∀ i, (c.cancel i).controlPeers = c.controlPeers ∧
        (c.cancel i).controlSessions = c.controlSessions ∧ (c.cancel i).released = c.released := by
  intro c₀ c
  have h : c.Exact := (exact_start isIP relay allowLoopback limits).run es
  have hl : c.controlLimits = limits.orDefault := controlLimits_run c₀ es
  refine ⟨h.peers, ⟨h.nodup, h.members⟩, hl ▸ h.total, fun p => hl ▸ h.bucket p, ?_, ?_, ?_, ?_⟩
  · intro i s hs
    rw [h.released, finishedAt, hs, Option.map_some, Option.getD_some]
    cases s.finished <;> rfl
  · intro i hi
    obtain ⟨pre, post, ok, he, hp⟩ :=
      handler_settled rfl es (h.phase_of_released hi) Phase.noConfusion
    refine ⟨pre, post, ok, he, hp, fun hmem => ?_⟩
    have hd := ((exact_start isIP relay allowLoopback limits).run pre).phase_of_released hmem
    cases hp.symm.trans hd
  · intro i s hs hp
    have hd := settled_finishes h (by rw [phaseAt, hs, Option.map_some]) hp
    rw [(h.run _).released_of_phase hd]
    rfl
  · intro i
    have hc := unmoved_cancel c i
    exact ⟨hc.controlPeers, hc.controlSessions, hc.released⟩

end Controller

end Control

end HyperDht.Private
