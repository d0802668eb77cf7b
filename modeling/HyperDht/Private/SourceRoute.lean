import HyperDht.Private.LookupPeriods

/-!
# How a source builds its routes

`PinnedGuards` and the source's side of a route: `connect`, `_openSession` and the retry loop of
`_openSessionAttempt`, for any number of calls at a time, on a controller that is neither
destroyed nor suspended. A call runs from one `await` to the next; what it waited for is the
event it goes on with, so events of different calls come in any order. Guards are objects that
the pinned set and the calls share, and stand on a heap.

Buffers that are only filled with zeros, the link and its context, and the events for the
observer are left out.
-/

namespace HyperDht.Private.SourceRoute

def maxSourceAttempts : Nat := 3

def guardSetSize : Nat := 3

def guardLifetimeMs : Nat := 28 * 24 * 60 * 60 * 1000

/-- A guard: one of the pinned set, or a candidate of one call only. -/
structure Guard where
  publicKey : Bytes
  unreachable : Bool
  ephemeral : Bool
deriving DecidableEq, Repr

/-! ## Pinned guards -/

/-- `PinnedGuards`, as places on the heap. -/
structure PinnedGuards where
  current : Option Nat
  alternates : List Nat
  rotateAt : Nat
deriving DecidableEq, Repr

namespace PinnedGuards

def candidates (g : PinnedGuards) : List Nat :=
  match g.current with
  | none => []
  | some current => current :: g.alternates

/-- `failed`, after the flag is set. -/
def failed (g : PinnedGuards) (guard : Nat) : PinnedGuards :=
  if g.current ≠ some guard then g
  else
    let candidates := g.candidates.filter (· ≠ guard) ++ [guard]
    { g with current := candidates.head?, alternates := candidates.tail }

end PinnedGuards

/-- The keys `ensure` pins: the first three that differ. -/
def pickGuards (picked : List Bytes) : List Bytes → List Bytes
  | [] => picked
  | publicKey :: relays =>
    if picked.contains publicKey then pickGuards picked relays
    else if picked.length + 1 = guardSetSize then picked ++ [publicKey]
    else pickGuards (picked ++ [publicKey]) relays

/-! ## The state of a call -/

/-- The variables of `_openSessionAttempt` that outlive one circuit build; `rest` are the
candidates after `guard`. -/
structure Attempt where
  relays : List Bytes
  guard : Nat
  rest : List Nat
  attemptedSeconds : List Bytes
  attempts : Nat
  resolveAttempts : Nat
  descriptor : Option Descriptor
  entryDiversity : Option Bytes
  guardDiversity : Option Bytes
  knownDiversity : JsMap Bytes Bytes

/-- The variables of one circuit build. -/
structure Build where
  firstSafetyRelay : Bytes
  secondSafetyRelay : Bytes
  firstDiversity : Bytes
  secondDiversity : Bytes
deriving DecidableEq, Repr

/-- What a call waits for: the relay directory, the dial of its first relay, the answer to
`OP_BUILD_SOURCE`, the descriptor, the answer to `SOURCE_ACTIVATE`, or what is left to do once
the route is selected. A dial of a key in `directDestinationKeys` is refused. -/
inductive Phase where
  | discovering
  | dialing (a : Attempt) (first second : Bytes) (refused : Bool)
  | building (a : Attempt) (first second : Bytes) (firstDiversity : Bytes)
  | resolving (a : Attempt) (b : Build)
  | activating (a : Attempt) (b : Build)
  | finishing (a : Attempt) (b : Build)
  | opened (a : Attempt) (b : Build)
  | failed

/-- A call of `connect`. `canUseCache` is that of `_openSession`, until its second attempt. -/
structure Session where
  destination : Bytes
  canUseCache : Bool
  phase : Phase

structure CachedDescriptor where
  wire : Bytes
  period : Nat
  expiresAt : Int
deriving DecidableEq, Repr

/-- The fields of the controller that its source side reads. -/
structure SourceController where
  observer : Bool
  heap : List Guard
  sourceGuards : PinnedGuards
  unreachableRelays : JsMap Bytes Nat
  directDestinationKeys : JsMap Bytes Nat
  directDestinationSends : Nat
  descriptorCache : JsMap Bytes CachedDescriptor
  sessions : List Session

namespace SourceController

def fresh : SourceController := ⟨false, [], ⟨none, [], 0⟩, .empty, .empty, 0, .empty, []⟩

/-! ## Guards and relays -/

def isDown (s : SourceController) (guard : Nat) : Bool := s.heap[guard]?.any (·.unreachable)

def isUnavailable (s : SourceController) (publicKey : Bytes) : Bool :=
  (s.sourceGuards.current.toList ++ s.sourceGuards.alternates).any fun guard =>
    s.heap[guard]?.any fun g => g.unreachable && g.publicKey = publicKey

def setUnreachable (s : SourceController) (guard : Nat) (value : Bool) : SourceController :=
  { s with heap := s.heap.modify guard fun g => { g with unreachable := value } }

def failedGuard (s : SourceController) (guard : Nat) : SourceController :=
  let s := s.setUnreachable guard true
  { s with sourceGuards := s.sourceGuards.failed guard }

def ensure (s : SourceController) (relays : List Bytes) (now : Nat) : SourceController :=
  if s.sourceGuards.current.isSome && decide (now < s.sourceGuards.rotateAt) &&
      !s.sourceGuards.candidates.all s.isDown then s
  else
    let guards := pickGuards [] relays
    let places := (List.range guards.length).map (s.heap.length + ·)
    { s with
      heap := s.heap ++ guards.map fun publicKey => Guard.mk publicKey false false
      sourceGuards := ⟨places.head?, places.tail, now + guardLifetimeMs⟩ }

def markRelayUnreachable (s : SourceController) (publicKey : Bytes) (now : Nat) : SourceController :=
  { s with unreachableRelays := s.unreachableRelays.set publicKey (now + 60000) }

/-- `_liveRelays`: the relays, and `unreachableRelays` as it is left. -/
def liveRelays (unreachable : JsMap Bytes Nat) (relays : List Bytes) (minCount now : Nat) :
    List Bytes × JsMap Bytes Nat :=
  let unreachable := unreachable.entries.foldl
    (fun left e => if e.2 ≤ now then left.delete e.1 else left) unreachable
  let live := relays.filter fun publicKey => !unreachable.has publicKey
  if minCount ≤ live.length then (live, unreachable) else (relays, .empty)

/-- Is every pinned guard flagged or on the list of unreachable relays? -/
def everyGuardDown (s : SourceController) : Bool :=
  s.sourceGuards.candidates.all fun guard =>
    s.heap[guard]?.any fun g => g.unreachable || s.unreachableRelays.has g.publicKey

/-! ## The retry loop -/

def conflictWithDescriptor (a : Attempt) (div : Option Bytes) : Bool :=
  div.any fun div => a.entryDiversity == some div || a.guardDiversity == some div

/-- Is the key one of the two relays of the descriptor? -/
def inDescriptor (a : Attempt) (publicKey : Bytes) : Bool :=
  a.descriptor.any fun d =>
    publicKey = d.entryRelayPublicKey || publicKey = d.destinationGuardPublicKey

def secondSafetyRelay (s : SourceController) (a : Attempt) (first : Bytes) : Option Bytes :=
  a.relays.find? fun candidate =>
    candidate ≠ first && !a.attemptedSeconds.contains candidate && !s.isUnavailable candidate &&
      !s.unreachableRelays.has candidate &&
      !((a.knownDiversity.get? first).isSome &&
        a.knownDiversity.get? first = a.knownDiversity.get? candidate) &&
      !conflictWithDescriptor a (a.knownDiversity.get? candidate) && !inDescriptor a candidate

/-- One evaluation of the `while` loop up to the dial: the relays to dial, or the end of the
loop for this guard. -/
def tryGuard (s : SourceController) (a : Attempt) : Option (Attempt × Bytes × Bytes) :=
  if maxSourceAttempts ≤ a.attempts ∨ maxSourceAttempts ≤ a.resolveAttempts then none
  else
    match s.heap[a.guard]? with
    | none => none
    | some guard =>
      let first := guard.publicKey
      if inDescriptor a first ||
          a.descriptor.isSome && conflictWithDescriptor a (a.knownDiversity.get? first) then none
      else
        match s.secondSafetyRelay a first with
        | none => none
        | some second =>
          some ({ a with
            attempts := a.attempts + 1
            attemptedSeconds := second :: a.attemptedSeconds }, first, second)

/-- The `for` loop over the candidates. -/
def nextGuard (s : SourceController) (a : Attempt) : List Nat → Option (Attempt × Bytes × Bytes)
  | [] => none
  | guard :: rest =>
    if s.heap[guard]?.any (·.ephemeral) && !s.everyGuardDown then none
    else
      match s.tryGuard { a with guard, rest, attemptedSeconds := [], attempts := 0 } with
      | some dial => some dial
      | none => s.nextGuard a rest

def phase? (s : SourceController) (i : Nat) : Option Phase := s.sessions[i]?.map (·.phase)

def setPhase (s : SourceController) (i : Nat) (phase : Phase) : SourceController :=
  { s with sessions := s.sessions.modify i fun session => { session with phase } }

/-- The `finally` block of `connect`. -/
def release (s : SourceController) (destination : Bytes) : SourceController :=
  match s.directDestinationKeys.get? destination with
  | none => s
  | some active =>
    if active = 1 then
      { s with directDestinationKeys := s.directDestinationKeys.delete destination }
    else if 1 < active then
      { s with directDestinationKeys := s.directDestinationKeys.set destination (active - 1) }
    else s

/-- `_openSessionAttempt` throws: `_openSession` tries once more without the cache. -/
def endAttempt (s : SourceController) (i : Nat) : SourceController :=
  match s.sessions[i]? with
  | none => s
  | some session =>
    if session.canUseCache then
      { s with
        descriptorCache := s.descriptorCache.delete session.destination
        sessions := s.sessions.set i { session with canUseCache := false, phase := .discovering } }
    else (s.setPhase i .failed).release session.destination

/-- `_connectRelay` of the first relay, up to its `await`. -/
def dial (s : SourceController) (i : Nat) : Option (Attempt × Bytes × Bytes) → SourceController
  | none => s.endAttempt i
  | some (a, first, second) =>
    let refused := s.directDestinationKeys.has first
    { s.setPhase i (.dialing a first second refused) with
      directDestinationSends := s.directDestinationSends + if refused then 1 else 0 }

def tryFrom (s : SourceController) (i : Nat) (a : Attempt) (guards : List Nat) : SourceController :=
  s.dial i (s.nextGuard a guards)

/-- The build failed after the first relay was connected, or is given up by `continue`: the
`while` loop goes on. -/
def again (s : SourceController) (i : Nat) (a : Attempt) : SourceController :=
  match s.tryGuard a with
  | some next => s.dial i (some next)
  | none => s.tryFrom i a a.rest

/-! ## The steps of a call -/

/-- `connect`, up to the first `await`. -/
def connect (s : SourceController) (destination : Bytes) (useSpliced : Bool) : SourceController :=
  { s with
    directDestinationKeys := s.directDestinationKeys.set destination
      ((s.directDestinationKeys.get? destination).getD 0 + 1)
    sessions := s.sessions ++
      [⟨destination, useSpliced && !s.observer && s.descriptorCache.has destination,
        .discovering⟩] }

/-- The descriptor in the cache, which loses it where it is of no use. -/
def cachedDescriptor (k : Suite) (s : SourceController) (session : Session) (now : Nat) :
    Option Descriptor × SourceController :=
  if session.canUseCache && !s.observer then
    match s.descriptorCache.get? session.destination with
    | none => (none, s)
    | some cached =>
      let dropped :=
        { s with descriptorCache := s.descriptorCache.delete session.destination }
      if (now : Int) < cached.expiresAt then
        match decodeDescriptor k ⟨now, some cached.period, some session.destination⟩
            cached.wire with
        | .ok descriptor => (some descriptor, s)
        | .error _ => (none, dropped)
      else (none, dropped)
  else (none, s)

/-- The loop over all candidates: the pinned guards that are not listed as unreachable, and
then the other relays. -/
def startLoop (k : Suite) (s : SourceController) (i : Nat) (session : Session) (relays : List Bytes)
    (now : Nat) : SourceController :=
  let cached := cachedDescriptor k s session now
  let s := cached.2
  let pinned := s.sourceGuards.candidates.filter fun guard =>
    !s.heap[guard]?.any fun g => s.unreachableRelays.has g.publicKey
  let pinnedIds := pinned.filterMap fun guard => s.heap[guard]?.map (·.publicKey)
  let extra := relays.filter (!pinnedIds.contains ·)
  let places := (List.range extra.length).map (s.heap.length + ·)
  let s := { s with heap := s.heap ++ extra.map fun publicKey => Guard.mk publicKey false true }
  s.tryFrom i
    { relays, guard := 0, rest := [], attemptedSeconds := [], attempts := 0, resolveAttempts := 0,
      descriptor := cached.1, entryDiversity := none, guardDiversity := none,
      knownDiversity := .empty }
    (pinned ++ places)

/-- `discoverRelays` gave its directory, shuffled. -/
def discovered (k : Suite) (s : SourceController) (i : Nat) (session : Session) (relays : List Bytes)
    (now : Nat) : SourceController :=
  let live := liveRelays s.unreachableRelays relays 4 now
  ({ s with unreachableRelays := live.2 }.ensure live.1 now).startLoop k i session live.1 now

/-- How a dial of the network ended: the stream did not open, or it did; `none` where the address
of the open stream changed to one without a diversity key or to one with another key. -/
inductive Dial where
  | failed
  | opened (digest : Option Bytes)
deriving DecidableEq, Repr

def dialed (s : SourceController) (i : Nat) (a : Attempt) (first second : Bytes) (refused : Bool)
    (result : Dial) (now : Nat) : SourceController :=
  match refused, result with
  | false, .opened digest =>
    let s := s.setUnreachable a.guard false
    match digest with
    | none => s.again i a
    | some firstDiversity =>
      let a := { a with knownDiversity := a.knownDiversity.set first firstDiversity }
      if conflictWithDescriptor a (some firstDiversity) then s.again i a
      else s.setPhase i (.building a first second firstDiversity)
  | _, _ =>
    -- `_connectRelay` marks the relay only where it dialed it, the `catch` block in any case
    let s := if refused then s else s.markRelayUnreachable first now
    let s := (s.markRelayUnreachable first now).failedGuard a.guard
    s.tryFrom i a a.rest

def requireDiverse (values : List Bytes) : Bool :=
  values.all (fun value => value.length = 32) && decide values.Nodup

/-- The keys of a circuit against its descriptor, and the `SOURCE_ACTIVATE` command. -/
def extend (s : SourceController) (i : Nat) (a : Attempt) (b : Build) : SourceController :=
  if inDescriptor a b.firstSafetyRelay || inDescriptor a b.secondSafetyRelay then s.again i a
  else s.setPhase i (.activating a b)

/-- The second relay's digest, as the first relay sends it. -/
def built (s : SourceController) (i : Nat) (a : Attempt) (first second firstDiversity : Bytes)
    (secondDiversity : Option Bytes) : SourceController :=
  match secondDiversity with
  | none => s.again i a
  | some secondDiversity =>
    let a := { a with knownDiversity := a.knownDiversity.set second secondDiversity }
    if !requireDiverse [firstDiversity, secondDiversity] then s.again i a
    else
      let b : Build := ⟨first, second, firstDiversity, secondDiversity⟩
      match a.descriptor with
      | none =>
        s.setPhase i (.resolving { a with resolveAttempts := a.resolveAttempts + 1 } b)
      | some _ => s.extend i a b

def resolved (s : SourceController) (i : Nat) (session : Session) (a : Attempt) (b : Build)
    (result : Except DescriptorError Descriptor) (now : Nat) : SourceController :=
  match result with
  | .error _ => s.again i a
  | .ok descriptor =>
    let s :=
      if s.observer then s
      else { s with
        descriptorCache := s.descriptorCache.set session.destination
          ⟨descriptor.wire, descriptor.period,
            min ((now : Int) + 45000) ((descriptor.expiresAt : Int) - 5000)⟩ }
    s.extend i { a with descriptor := some descriptor } b

def activated (s : SourceController) (i : Nat) (session : Session) (a : Attempt) (b : Build)
    (response : Option Bytes) : SourceController :=
  match response with
  | none => s.again i a
  | some response =>
    if response.length ≠ 65 ∨ response[0]? ≠ some statusOk then
      { s with descriptorCache := s.descriptorCache.delete session.destination }.again i
        { a with descriptor := none }
    else
      let a := { a with
        entryDiversity := some (subarray response 1 33)
        guardDiversity := some (subarray response 33 65) }
      if !requireDiverse [b.firstDiversity, b.secondDiversity, subarray response 1 33,
          subarray response 33 65] then s.again i a
      else s.setPhase i (.finishing a b)

def finished (s : SourceController) (i : Nat) (session : Session) (a : Attempt) (b : Build) (ok : Bool) :
    SourceController :=
  if ok then (s.setPhase i (.opened a b)).release session.destination else s.again i a

/-- What a call waited for. `none` is an error; `resolved` has the answers to the requests of
`_resolveThrough`, which began at `started`. -/
inductive Outcome where
  | discovered (relays : Option (List Bytes)) (now : Nat)
  | dialed (result : Dial) (now : Nat)
  | built (secondDiversity : Option Bytes)
  | resolved (started : Nat) (respond : Bytes → Option (Nat × Bytes)) (now : Nat)
  | activated (response : Option Bytes)
  | finished (ok : Bool)

inductive Event where
  | connect (destination : Bytes) (useSpliced : Bool)
  | continues (i : Nat) (outcome : Outcome)

/-- A call goes on; what it does not wait for does nothing. -/
def continues (k : Suite) (s : SourceController) (i : Nat) (session : Session) : Outcome → SourceController
  | .discovered relays now =>
    match session.phase, relays with
    | .discovering, some relays => s.discovered k i session relays now
    | .discovering, none => s.endAttempt i
    | _, _ => s
  | .dialed result now =>
    match session.phase with
    | .dialing a first second refused => s.dialed i a first second refused result now
    | _ => s
  | .built secondDiversity =>
    match session.phase with
    | .building a first second firstDiversity =>
      s.built i a first second firstDiversity secondDiversity
    | _ => s
  | .resolved started respond now =>
    match session.phase with
    | .resolving a b =>
      s.resolved i session a b (resolveThrough k session.destination started respond).2 now
    | _ => s
  | .activated response =>
    match session.phase with
    | .activating a b => s.activated i session a b response
    | _ => s
  | .finished ok =>
    match session.phase with
    | .finishing a b => s.finished i session a b ok
    | _ => s

def step (k : Suite) (s : SourceController) : Event → SourceController
  | .connect destination useSpliced => s.connect destination useSpliced
  | .continues i outcome =>
    match s.sessions[i]? with
    | none => s
    | some session => s.continues k i session outcome

end SourceController

end HyperDht.Private.SourceRoute
