import HyperDht.Lib.Runs

/-!
# The routes of a listening server

A `PrivatePeerServer` with what its controller does for it: `_publish` and its single
flight, the routes that a publish installs, retires and replaces, the refresh timer, and
suspend, resume and close of the server and of the controller.

An event is one synchronous turn. A publish is `running` while `_publishNow` is at one of
its awaits, and `settled` from the turn in which it returns or throws to the turn of the
`finally` of `_publish`. A circuit has its number in the order of construction, and stays in
`circuits` when it is closed.
-/

namespace HyperDht.Private.Publishing

/-- A `DestinationCircuit`: the number of its streams and its two flags. -/
structure Circuit where
  streams : Nat
  closed : Bool
  retired : Bool
  deriving DecidableEq, Repr

inductive Publish where
  | running
  | settled (ok : Bool)
  deriving DecidableEq, Repr

/-- `_listening`: not called yet, waiting for its publish, completed or thrown. -/
inductive Listen where
  | idle
  | waiting
  | completed
  | thrown
  deriving DecidableEq, Repr

/-- `destroyed`, `controllerSuspended` and `registered` (in `servers`) are the controller's.
`suspending` and `resuming` count the calls of its `suspend` and `resume` that are at an
await. -/
structure PeerServer where
  destroyed : Bool
  controllerSuspended : Bool
  suspending : Nat
  resuming : Nat
  registered : Bool
  closed : Bool
  suspended : Bool
  keyPair : Bool
  listening : Listen
  circuits : List Circuit
  route : Option Nat
  routes : List Nat
  republishAfter : Bool
  publishing : Option Publish
  refreshTimer : Bool
  deriving DecidableEq, Repr

namespace PeerServer

def new : PeerServer :=
  ⟨false, false, 0, 0, false, false, false, false, .idle, [], none, [], false, none, false⟩

/-- None of the flags that stop a publish. -/
def able (s : PeerServer) : Bool :=
  !s.destroyed && !s.controllerSuspended && !s.closed && !s.suspended

/-- `_publish`, with `_publishNow` up to its first await. -/
def _publish (s : PeerServer) : PeerServer :=
  if s.publishing.isSome then s
  else { s with
    publishing := some (if s.able = false ∨ s.keyPair = false then .settled false else .running) }

def _destinationUnavailable (s : PeerServer) (r : Nat) : PeerServer :=
  if s.route = some r then
    let s := { s with route := none, refreshTimer := false }
    if s.able = false then s
    else if s.publishing.isSome then { s with republishAfter := true }
    else s._publish
  else s

def setCircuit (s : PeerServer) (r : Nat) (f : Circuit → Circuit) : PeerServer :=
  { s with circuits := s.circuits.modify r f }

/-- `destroy` of a circuit. -/
def destroyCircuit (s : PeerServer) (r : Nat) : PeerServer :=
  match s.circuits[r]? with
  | none => s
  | some c =>
    if c.closed then s
    else
      { s.setCircuit r fun c => { c with closed := true, streams := 0 } with
        routes := s.routes.filter (· ≠ r) }._destinationUnavailable r

def retire (s : PeerServer) (r : Nat) : PeerServer :=
  match s.circuits[r]? with
  | none => s
  | some c =>
    if c.closed ∨ c.retired then s
    else
      let s := (s.setCircuit r fun c => { c with retired := true })._destinationUnavailable r
      if c.streams = 0 then s.destroyCircuit r else s

def _clearServerRoute (s : PeerServer) : PeerServer :=
  let s := { s with refreshTimer := false, route := none, republishAfter := false }
  s.routes.foldl destroyCircuit s

/-- A circuit and its registration, in `_publishThroughGuard`. -/
def construct (s : PeerServer) : PeerServer :=
  { s with
    refreshTimer := false
    circuits := s.circuits ++ [⟨0, false, false⟩]
    route := some s.circuits.length
    routes := s.routes ++ [s.circuits.length] }

/-- The last part of `_publishThroughGuard`, after its last await. `startCloses` says that
`start` finds bytes that close the circuit. Where it throws the attempt has failed, and the
loop of `_publishNow` goes on or throws in its turn. -/
def install (s : PeerServer) (startCloses : Bool) : PeerServer :=
  if s.publishing ≠ some .running ∨ s.able = false then s
  else
    let route := s.circuits.length
    let s := s.construct
    if startCloses then s.destroyCircuit route
    else
      { s.routes.foldl (fun s previous => if previous = route then s else s.retire previous) s with
        refreshTimer := true
        publishing := some (.settled true) }

/-- The `finally` of `_publish`. The promise that `listen` waits for settles with it. -/
def finish (s : PeerServer) : PeerServer :=
  match s.publishing with
  | some (.settled ok) =>
    let retry := s.republishAfter && s.route.isNone
    let s := { s with
      publishing := none
      republishAfter := false
      listening := if s.listening = .waiting then (if ok then .completed else .thrown)
        else s.listening }
    if retry && s.able then s._publish else s
  | _ => s

/-- `_listen` up to its publish; a second call of `listen` throws. -/
def listen (s : PeerServer) : PeerServer :=
  if s.listening ≠ .idle then s
  else if s.able = false then { s with listening := .thrown }
  else { s with keyPair := true, registered := true, listening := .waiting }._publish

/-- The `catch` of `_listen`. -/
def listenThrew (s : PeerServer) : PeerServer :=
  if s.listening = .thrown ∧ s.registered then
    { { s with registered := false }._clearServerRoute with keyPair := false }
  else s

def streamOpened (s : PeerServer) (r : Nat) : PeerServer :=
  s.setCircuit r fun c =>
    if c.closed ∨ c.retired then c else { c with streams := c.streams + 1 }

/-- A stream of a circuit closes; the last one of a retired circuit closes the circuit. -/
def streamClosed (s : PeerServer) (r : Nat) : PeerServer :=
  match s.circuits[r]? with
  | none => s
  | some c =>
    if c.closed ∨ c.streams = 0 then s
    else
      let s := s.setCircuit r fun c => { c with streams := c.streams - 1 }
      if c.retired ∧ c.streams = 1 then s.destroyCircuit r else s

/-- `publishThrows` is an await of `_publishNow` that throws, with no candidate left or with a
flag set; `finish` the `finally` of `_publish`; `suspendEnds` and `resumePublishes` what the
controller's `suspend` and `resume` do for this server after their awaits. -/
inductive Event where
  | listen
  | listenThrew
  | refresh
  | refreshFires
  | publishThrows
  | install (startCloses : Bool)
  | finish
  | streamOpened (r : Nat)
  | streamClosed (r : Nat)
  | routeClosed (r : Nat)
  | routeExpired (r : Nat)
  | suspend
  | resume
  | close
  | controllerSuspend
  | suspendEnds
  | controllerResume
  | resumePublishes
  | controllerDestroy
  deriving DecidableEq, Repr

def step (s : PeerServer) : Event → PeerServer
  | .listen => s.listen
  | .listenThrew => s.listenThrew
  | .refresh => if s.closed ∨ s.suspended then s else s._publish
  | .refreshFires =>
    if s.refreshTimer = false then s
    else if s.closed ∨ s.suspended then { s with refreshTimer := false }
    else { s with refreshTimer := false }._publish
  | .publishThrows =>
    if s.publishing = some .running then { s with publishing := some (.settled false) } else s
  | .install startCloses => s.install startCloses
  | .finish => s.finish
  | .streamOpened r => s.streamOpened r
  | .streamClosed r => s.streamClosed r
  | .routeClosed r => s.destroyCircuit r
  | .routeExpired r => s.retire r
  | .suspend => { s with suspended := true }._clearServerRoute
  | .resume => if s.closed then s else { s with suspended := false }._publish
  | .close =>
    if s.closed then s else { s with closed := true, registered := false }._clearServerRoute
  | .controllerSuspend =>
    if s.destroyed ∨ s.controllerSuspended then s
    else { s with controllerSuspended := true, suspending := s.suspending + 1 }
  | .suspendEnds =>
    if s.suspending = 0 then s
    else
      let s := { s with suspending := s.suspending - 1 }
      if s.registered then s._clearServerRoute else s
  | .controllerResume =>
    if s.destroyed ∨ s.controllerSuspended = false then s
    else { s with controllerSuspended := false, resuming := s.resuming + 1 }
  | .resumePublishes =>
    if s.resuming = 0 then s
    else
      let s := { s with resuming := s.resuming - 1 }
      if s.registered then s._publish else s
  | .controllerDestroy =>
    if s.destroyed then s
    else if s.registered then
      { s with destroyed := true, closed := true, registered := false }._clearServerRoute
    else { s with destroyed := true }

def run (s : PeerServer) (events : List Event) : PeerServer := events.foldl step s

/-! ## What a listening server is owed -/

/-- The route is a circuit that is neither closed nor retired. -/
def hasRoute (s : PeerServer) : Prop :=
  ∃ r c, s.route = some r ∧ s.circuits[r]? = some c ∧ c.closed = false ∧ c.retired = false

/-- The server has completed `listen`, and nothing it runs on is closed or suspended. -/
def Obliged (s : PeerServer) : Prop := s.listening = .completed ∧ s.able = true

/-- A server that listens has a route or is about to get one, and no other circuit than its
route takes new streams. -/
def Reachable (s : PeerServer) : Prop :=
  s.Obliged →
    (s.hasRoute ∨ s.publishing.isSome = true ∨ s.refreshTimer = true) ∧
      ∀ r ∈ s.routes, ∀ c, s.circuits[r]? = some c → c.retired = false → s.route = some r

/-- The condition on a step.
* A publish that ends leaves a route, or its route closed while it was in flight.
* A route that closes inside `start` finds no other circuit that is still in use.
* The controller resumes while the server has a route or a publish in flight.
* The end of a `suspend` that was overtaken by `resume` finds a publish in flight. -/
def Meets (s : PeerServer) : Event → Prop
  | .finish =>
    ∀ ok, s.publishing = some (.settled ok) →
      (s.listening = .completed ∨ s.listening = .waiting ∧ ok = true) → s.able = true →
      s.route.isSome = true ∨ s.republishAfter = true
  | .install startCloses =>
    startCloses = true → s.publishing = some .running → s.able = true →
      s.listening = .completed → s.route = none
  | .controllerResume =>
    s.destroyed = false → s.controllerSuspended = true → s.closed = false → s.suspended = false →
      s.listening = .completed → s.route.isSome = true ∨ s.publishing.isSome = true
  | .suspendEnds =>
    s.suspending ≠ 0 → s.registered = true → s.Obliged → s.publishing.isSome = true
  | _ => True

end PeerServer

end HyperDht.Private.Publishing
