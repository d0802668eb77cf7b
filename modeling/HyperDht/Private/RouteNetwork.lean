import HyperDht.Private.RelayDiversity
import HyperDht.Private.SourceRoute

/-!
# The parties of a source route

A source with any number of calls, relays that run the control handlers of the controller, and
destinations, over streams that carry control messages and then cells. Every stream has two ends;
each sees the other under an address that may change, and `_relayDiversityDigest` is what it makes
of it. A relay's handler serves one stream and opens at most one further stream, and bridges the
two once its setup is done.

Which relays run this code is the parameter `honest`; other relays, and clients that are neither
relays of this kind nor the source nor a destination, send what they like. Events come in any
order. Left out are the route contexts, the memory and time quotas of a relay, and what follows
the setup of a route.
-/

namespace HyperDht.Private.RouteNetwork

open SourceRoute
open SourceRoute.SourceController (requireDiverse)

/-! ## Addresses -/

/-- The primitives: `generichash` is `crypto_generichash`, and `admits` the signature check of
`verifyDestinationAdmission`. -/
structure Primitives where
  suite : Suite
  isIP : String → Nat
  generichash : Bytes → Bytes
  admits : Bytes → Bytes → Bytes → Bytes → Bool

/-- What `relayAddresses` holds for a stream. -/
structure Observed where
  host : String
  port : Int
  key : String
  digest : Bytes
  allowLoopback : Bool
deriving DecidableEq, Repr

/-- One end of a stream: the address of its own socket, that of the other end as it stands, and
what was observed of it. -/
structure Endpoint where
  ownHost : String
  remoteHost : String
  remotePort : Int
  observed : Option Observed
deriving DecidableEq, Repr

def diversityDomain : Bytes :=
  "hyperdht/private-peer/relay-diversity/v1/".toList.map fun c => UInt8.ofNat c.toNat

namespace Endpoint

def digest? (e : Endpoint) : Option Bytes := e.observed.map (·.digest)

/-- `_relayDiversityKey` and `_relayDiversityDigest`; `none` where they throw. -/
def relayDiversityDigest (l : Primitives) (e : Endpoint) : Option (Bytes × Endpoint) :=
  match e.observed with
  | some o =>
    if o.host = e.remoteHost ∧ o.port = e.remotePort then some (o.digest, e)
    else
      match relayDiversityKey l.isIP e.remoteHost e.remotePort o.allowLoopback with
      | .error _ => none
      | .ok value =>
        if o.key ≠ value then none
        else
          some (o.digest,
            { e with observed := some { o with host := e.remoteHost, port := e.remotePort } })
  | none =>
    match normalizedIP l.isIP e.ownHost with
    | .error _ => none
    | .ok own =>
      let allowLoopback := own.any isLoopback
      match relayDiversityKey l.isIP e.remoteHost e.remotePort allowLoopback with
      | .error _ => none
      | .ok value =>
        let digest := l.generichash (diversityDomain ++ value.toUTF8.toList)
        some (digest,
          { e with observed := some ⟨e.remoteHost, e.remotePort, value, digest, allowLoopback⟩ })

end Endpoint

/-! ## Streams -/

/-- The control messages of the handlers, with the requests first and then the answers. -/
inductive Control where
  | buildSource (second : Bytes)
  | extendSource
  | entryActivate (wire first second : Bytes)
  | entryRegister (wire guard entry : Bytes)
  | entryCommit
  | buildDestination
  | identity (bytes : Bytes)
  | destination (wire guard : Bytes)
  | status
  | challenge (bytes : Bytes)
  | recovery (previous : Option Bytes)
  | built (digest : Bytes)
  | entryActivated (guard entry : Bytes)
  | destinationBuilt (entry : Bytes)
deriving DecidableEq, Repr

/-- The payload of a cell toward the second relay, as its loop reads it. -/
inductive Command where
  | resolve
  | activate (wire first second : Bytes)
  | other
deriving DecidableEq, Repr

/-- One direction of a stream: all that was sent, and how much of it is taken. -/
structure Channel (α : Type) where
  sent : List α
  taken : Nat
deriving DecidableEq, Repr

namespace Channel

variable {α : Type}

def empty : Channel α := ⟨[], 0⟩

def next (c : Channel α) : Option α := c.sent[c.taken]?

def push (c : Channel α) (a : α) : Channel α := { c with sent := c.sent ++ [a] }

def take (c : Channel α) : Channel α := { c with taken := c.taken + 1 }

end Channel

/-- Who opened a stream: a source for a route with `second`, a relay's handler that serves the
stream `parent`, with its first message, a destination, or anyone else. -/
inductive Role where
  | source (second : Bytes)
  | relay (parent : Nat) (request : Control)
  | destination
  | other
deriving DecidableEq, Repr

/-- Where the handler of a stream stands. -/
inductive Handler where
  | idle
  | dialSecond (second : Bytes)
  | awaitExtend
  | commands
  | dialEntry (wire first second : Bytes)
  | awaitActivation (wire first second : Bytes)
  | registering (wire guard entry : Bytes)
  | challenged (challenge : Bytes)
  | identified (period : Nat) (blinded : Bytes)
  | dialForGuard (wire guard : Bytes)
  | awaitRegister (entry : Bytes)
  | publishing (entry : Bytes)
  | awaitCommit (entry : Bytes)
  | bridge
  | done
  | dead
deriving DecidableEq, Repr

/-- A stream; `opened` is the stream that its handler opened. -/
structure Stream where
  role : Role
  client : Bytes
  server : Bytes
  clientEnd : Endpoint
  serverEnd : Endpoint
  toServer : Channel Control
  toClient : Channel Control
  commands : Channel Command
  replies : Channel Bytes
  handler : Handler
  opened : Option Nat

/-- An entry of `entryCircuits` of a relay. -/
structure EntryRecord where
  relay : Bytes
  token : Bytes
  wire : Bytes
  guardDiversity : Bytes
  entryDiversity : Bytes
deriving DecidableEq, Repr

/-- The parties; `routes` is the stream of the current circuit build of each call. -/
structure World where
  source : SourceController
  routes : Nat → Option Nat
  streams : List Stream
  entryCircuits : List EntryRecord
  pendingEntryRegistrations : List (Bytes × Bytes)

namespace World

variable (l : Primitives)

def modify (w : World) (j : Nat) (f : Stream → Stream) : World :=
  { w with streams := w.streams.modify j f }

/-- The `finally` block of `_handleEntryRegister`. -/
def unpend (w : World) (relay token : Bytes) : World :=
  { w with pendingEntryRegistrations := w.pendingEntryRegistrations.erase (relay, token) }

/-- The handler throws, or its stream closes. -/
def abort (w : World) (j : Nat) : World :=
  match w.streams[j]? with
  | none => w
  | some st =>
    let ended := w.modify j fun st => { st with handler := .dead }
    match st.handler with
    | .registering wire _ _ => ended.unpend st.server (fieldsOf wire).routeToken
    | _ => ended

/-! ## The handlers -/

/-- `_handleBuildSource`, up to the dial. -/
def buildSource (w : World) (j : Nat) (st : Stream) (second : Bytes) : World :=
  if second = st.server then w.abort j
  else w.modify j fun st => { st with toServer := st.toServer.take, handler := .dialSecond second }

/-- `_handleExtendSource`, up to its loop. -/
def extendSource (w : World) (j : Nat) (st : Stream) : World :=
  if st.client = st.server then w.abort j
  else w.modify j fun st => { st with
    toServer := st.toServer.take
    toClient := st.toClient.push .status
    handler := .commands }

/-- `_handleEntryActivate`. -/
def entryActivate (w : World) (j : Nat) (st : Stream) (wire first second : Bytes) (now : Nat) :
    World :=
  match decodeDescriptor l.suite ⟨now, none, none⟩ wire with
  | .error _ => w.abort j
  | .ok d =>
    if d.entryRelayPublicKey ≠ st.server ∨ st.client = d.destinationGuardPublicKey ∨
        st.client = st.server then w.abort j
    else
      match w.entryCircuits.find? fun entry => entry.relay = st.server ∧ entry.token = d.routeToken with
      | none => w.abort j
      | some entry =>
        if entry.wire ≠ d.wire then w.abort j
        else
          match st.serverEnd.relayDiversityDigest l with
          | none => w.abort j
          | some (digest, serverEnd) =>
            if second ≠ digest ∨
                !requireDiverse [first, second, entry.guardDiversity, entry.entryDiversity] then
              w.modify j fun st => { st with serverEnd, handler := .dead }
            else
              w.modify j fun st => { st with
                serverEnd
                toServer := st.toServer.take
                toClient := st.toClient.push
                  (.entryActivated entry.guardDiversity entry.entryDiversity)
                handler := .done }

/-- `_handleEntryRegister`, up to its first answer. -/
def entryRegister (w : World) (j : Nat) (st : Stream) (wire guard entry : Bytes) (now : Nat) :
    World :=
  match decodeDescriptor l.suite ⟨now, none, none⟩ wire with
  | .error _ => w.abort j
  | .ok d =>
    if d.entryRelayPublicKey ≠ st.server ∨ st.client ≠ d.destinationGuardPublicKey ∨
        !requireDiverse [guard, entry] then w.abort j
    else
      match st.serverEnd.relayDiversityDigest l with
      | none => w.abort j
      | some (digest, serverEnd) =>
        if guard ≠ digest ∨
            (w.entryCircuits.any fun e => e.relay = st.server ∧ e.token = d.routeToken) ∨
            (st.server, d.routeToken) ∈ w.pendingEntryRegistrations then
          w.modify j fun st => { st with serverEnd, handler := .dead }
        else
          { w.modify j fun st => { st with
              serverEnd
              toServer := st.toServer.take
              toClient := st.toClient.push .status
              handler := .registering wire guard entry } with
            pendingEntryRegistrations := (st.server, d.routeToken) :: w.pendingEntryRegistrations }

/-- `_handleEntryRegister`, from the commit on. -/
def entryCommit (w : World) (j : Nat) (st : Stream) (wire guard entry : Bytes) : World :=
  let token := (fieldsOf wire).routeToken
  let w := { w with
    entryCircuits := ⟨st.server, token, wire, guard, entry⟩ :: w.entryCircuits.filter fun e =>
      ¬(e.relay = st.server ∧ e.token = token) }
  (w.modify j fun st => { st with
    toServer := st.toServer.take
    toClient := st.toClient.push .status
    handler := .done }).unpend st.server token

/-- A command of the source, in the loop of `_handleExtendSource`; `reply` is the answer to a
`SOURCE_RESOLVE`. -/
def command (w : World) (j : Nat) (st : Stream) (c : Command) (now : Nat) (reply : Bytes) : World :=
  match c with
  | .other => w.abort j
  | .resolve =>
    w.modify j fun st => { st with
      commands := st.commands.take, replies := st.replies.push reply }
  | .activate wire first second =>
    match decodeDescriptor l.suite ⟨now, none, none⟩ wire with
    | .error _ => w.abort j
    | .ok d =>
      if st.server = d.entryRelayPublicKey ∨ st.server = d.destinationGuardPublicKey ∨
          st.client = d.entryRelayPublicKey ∨ st.client = d.destinationGuardPublicKey ∨
          !requireDiverse [first, second] then w.abort j
      else
        match st.serverEnd.relayDiversityDigest l with
        | none => w.abort j
        | some (digest, serverEnd) =>
          if first ≠ digest then w.modify j fun st => { st with serverEnd, handler := .dead }
          else
            w.modify j fun st => { st with
              serverEnd
              commands := st.commands.take
              handler := .dialEntry wire first second }

/-- The answer of the entry, in `_handleExtendSource`: `next` is the stream to it. -/
def activation (w : World) (j n : Nat) (next : Stream) (first second guard entry : Bytes) : World :=
  match next.clientEnd.relayDiversityDigest l with
  | none => w.abort j
  | some (digest, clientEnd) =>
    let w := w.modify n fun st => { st with toClient := st.toClient.take, clientEnd }
    if entry ≠ digest ∨ !requireDiverse [first, second, guard, entry] then w.abort j
    else
      w.modify j fun st => { st with
        replies := st.replies.push (statusOk :: (guard ++ entry)), handler := .bridge }

/-- The answer of the second relay, in `_handleBuildSource`. -/
def extended (w : World) (j n : Nat) (next : Stream) : World :=
  match next.clientEnd.relayDiversityDigest l with
  | none => w.abort j
  | some (digest, clientEnd) =>
    (w.modify n fun st => { st with toClient := st.toClient.take, clientEnd }).modify j
      fun st => { st with toClient := st.toClient.push (.built digest), handler := .bridge }

/-- `lookupPeriods` and the signature of a destination, in `_handleBuildDestination`. -/
def admitted (st : Stream) (challenge bytes : Bytes) (now : Nat) : Bool :=
  u64 bytes 0 ∈ lookupPeriods now && l.admits bytes challenge st.client st.server

/-- The first message on a stream; `data` is the challenge to a destination. -/
def request (w : World) (j : Nat) (st : Stream) (m : Control) (now : Nat) (data : Bytes) : World :=
  match m with
  | .buildSource second => w.buildSource j st second
  | .extendSource => w.extendSource j st
  | .entryActivate wire first second => w.entryActivate l j st wire first second now
  | .entryRegister wire guard entry => w.entryRegister l j st wire guard entry now
  | .buildDestination =>
    w.modify j fun st => { st with
      toServer := st.toServer.take
      toClient := st.toClient.push (.challenge data)
      handler := .challenged data }
  | _ => w.abort j

/-- The identity of a destination; `data` is the descriptor that it published before, if any. -/
def identity (w : World) (j : Nat) (st : Stream) (challenge : Bytes) (m : Control) (now : Nat)
    (data : Bytes) : World :=
  match m with
  | .identity bytes =>
    if admitted l st challenge bytes now then
      w.modify j fun st => { st with
        toServer := st.toServer.take
        toClient := st.toClient.push (.recovery (if data = [] then none else some data))
        handler := .identified (u64 bytes 0) (subarray bytes 8 40) }
    else w.abort j
  | _ => w.abort j

/-- The new descriptor of a destination, and its digest of the guard. -/
def destination (w : World) (j : Nat) (st : Stream) (period : Nat) (blinded : Bytes) (m : Control)
    (now : Nat) : World :=
  match m with
  | .destination wire guard =>
    match decodeDescriptor l.suite ⟨now, some period, none⟩ wire with
    | .error _ => w.abort j
    | .ok d =>
      if d.blindedPublicKey ≠ blinded ∨ d.destinationGuardPublicKey ≠ st.server then w.abort j
      else
        w.modify j fun st => { st with
          toServer := st.toServer.take, handler := .dialForGuard wire guard }
  | _ => w.abort j

/-- The answer `m` on the stream `n` that a handler opened. -/
def answer (w : World) (j n : Nat) (st next : Stream) (m : Control) : World :=
  match st.handler with
  | .awaitExtend => if m = .status then w.extended l j n next else w.abort j
  | .awaitActivation _ first second =>
    match m with
    | .entryActivated guard entry => w.activation l j n next first second guard entry
    | _ => w.abort j
  | .awaitRegister entry =>
    if m = .status then
      (w.modify n fun st => { st with toClient := st.toClient.take }).modify j
        fun st => { st with handler := .publishing entry }
    else w.abort j
  | .awaitCommit entry =>
    if m = .status then
      (w.modify n fun st => { st with toClient := st.toClient.take }).modify j
        fun st => { st with
          toClient := st.toClient.push (.destinationBuilt entry), handler := .bridge }
    else w.abort j
  | _ => w

/-- A handler reads the next message on the stream that it serves. -/
def serve (w : World) (j : Nat) (now : Nat) (data : Bytes) : World :=
  match w.streams[j]? with
  | none => w
  | some st =>
    match st.handler with
    | .commands =>
      match st.commands.next with
      | none => w
      | some c => w.command l j st c now data
    | _ =>
      match st.toServer.next with
      | none => w
      | some m =>
        match st.handler with
        | .idle => w.request l j st m now data
        | .registering wire guard entry =>
          if m = .entryCommit then w.entryCommit j st wire guard entry else w.abort j
        | .challenged challenge => w.identity l j st challenge m now data
        | .identified period blinded => w.destination l j st period blinded m now
        | _ => w

/-- A handler reads the next answer on the stream that it opened. -/
def serveAnswer (w : World) (j : Nat) : World :=
  match w.streams[j]? with
  | none => w
  | some st =>
    match st.opened with
    | none => w
    | some n =>
      match w.streams[n]? with
      | none => w
      | some next =>
        match next.toClient.next with
        | none => w
        | some m => w.answer l j n st next m

def newStream (role : Role) (client server : Bytes) (clientEnd serverEnd : Endpoint)
    (request : List Control) : Stream :=
  ⟨role, client, server, clientEnd, serverEnd, ⟨request, 0⟩, .empty, .empty, .empty, .idle, none⟩

def openNext (w : World) (j : Nat) (st : Stream) (server : Bytes) (clientEnd serverEnd : Endpoint)
    (request : Control) (handler : Handler) : World :=
  { w with
    streams := (w.streams.modify j fun st => { st with handler, opened := some w.streams.length }) ++
      [newStream (.relay j request) st.server server clientEnd serverEnd [request]] }

/-- `_connectRelay` of a handler gives its stream: `near` and `far` are the ends of the new one,
neither of which has observed the other. -/
def dialed (w : World) (j : Nat) (near far : Endpoint) : World :=
  match w.streams[j]? with
  | none => w
  | some st =>
    match { near with observed := none }.relayDiversityDigest l with
    | none => w.abort j
    | some (digest, clientEnd) =>
      let serverEnd := { far with observed := none }
      match st.handler with
      | .dialSecond second =>
        w.openNext j st second clientEnd serverEnd .extendSource .awaitExtend
      | .dialEntry wire first second =>
        w.openNext j st (fieldsOf wire).entryRelayPublicKey clientEnd serverEnd
          (.entryActivate wire first second) (.awaitActivation wire first second)
      | .dialForGuard wire guard =>
        if !requireDiverse [guard, digest] then w.abort j
        else
          w.openNext j st (fieldsOf wire).entryRelayPublicKey clientEnd serverEnd
            (.entryRegister wire guard digest) (.awaitRegister digest)
      | _ => w

/-- `descriptors.put` of a guard is done. -/
def published (w : World) (j : Nat) : World :=
  match w.streams[j]? with
  | none => w
  | some st =>
    match st.handler, st.opened with
    | .publishing entry, some n =>
      (w.modify n fun st => { st with toServer := st.toServer.push .entryCommit }).modify j
        fun st => { st with handler := .awaitCommit entry }
    | _, _ => w

/-- A bridge hands a cell on, toward the server or toward the client. -/
def forward (w : World) (j : Nat) (back : Bool) : World :=
  match w.streams[j]? with
  | none => w
  | some st =>
    match st.handler, st.opened with
    | .bridge, some n =>
      match w.streams[n]? with
      | none => w
      | some next =>
        if back then
          match next.replies.next with
          | none => w
          | some cell =>
            (w.modify n fun st => { st with replies := st.replies.take }).modify j
              fun st => { st with replies := st.replies.push cell }
        else
          match st.commands.next with
          | none => w
          | some cell =>
            (w.modify n fun st => { st with commands := st.commands.push cell }).modify j
              fun st => { st with commands := st.commands.take }
    | _, _ => w

/-! ## The source and the other clients -/

/-- What a call writes once it waits for an answer: the second relay is known to the stream. -/
def activationOf : Phase → Option Command
  | .activating a b => a.descriptor.map fun d => .activate d.wire b.firstDiversity b.secondDiversity
  | _ => none

/-- The source's call `i` goes on, and sends its `SOURCE_ACTIVATE` on the stream `j` where it comes
to that. -/
def sourceStep (w : World) (i j : Nat) (outcome : SourceController.Outcome) : World :=
  let source := w.source.step l.suite (.continues i outcome)
  let w := { w with source }
  match (source.phase? i).bind activationOf with
  | none => w
  | some c => w.modify j fun st => { st with commands := st.commands.push c }

/-- The first relay of call `i` is connected. -/
def sourceDialed (w : World) (i : Nat) (client : Bytes) (near far : Endpoint) (now : Nat) : World :=
  match w.source.phase? i with
  | some (.dialing _ first second false) =>
    match { near with observed := none }.relayDiversityDigest l with
    | none => { w with source := w.source.step l.suite (.continues i (.dialed .failed now)) }
    | some (digest, clientEnd) =>
      { w with
        source := w.source.step l.suite (.continues i (.dialed (.opened (some digest)) now))
        routes := Function.update w.routes i (some w.streams.length)
        streams := w.streams ++ [newStream (.source second) client first clientEnd
          { far with observed := none } [.buildSource second]] }
  | _ => w

/-- Call `i` reads the answer to `OP_BUILD_SOURCE`. -/
def sourceBuilt (w : World) (i : Nat) : World :=
  match w.source.phase? i, w.routes i with
  | some (.building _ _ _ _), some j =>
    match w.streams[j]? with
    | none => w
    | some st =>
      match st.toClient.next with
      | none => w
      | some (.built digest) =>
        (w.modify j fun st => { st with toClient := st.toClient.take }).sourceStep l i j
          (.built (some digest))
      | some _ => w.sourceStep l i j (.built none)
  | _, _ => w

/-- Call `i` sends a `SOURCE_RESOLVE`, once the last one is answered. -/
def sourceAsks (w : World) (i : Nat) : World :=
  match w.source.phase? i, w.routes i with
  | some (.resolving _ _), some j =>
    match w.streams[j]? with
    | none => w
    | some st =>
      if st.commands.sent.length = st.replies.taken then
        w.modify j fun st => { st with commands := st.commands.push .resolve }
      else w
  | _, _ => w

/-- Call `i` reads the answer to a `SOURCE_RESOLVE`. -/
def sourceAnswered (w : World) (i : Nat) : World :=
  match w.source.phase? i, w.routes i with
  | some (.resolving _ _), some j =>
    match w.streams[j]? with
    | none => w
    | some st =>
      if st.replies.taken < st.commands.sent.length ∧ st.replies.next.isSome then
        w.modify j fun st => { st with replies := st.replies.take }
      else w
  | _, _ => w

/-- `_resolveThrough` of call `i` ends, with no request left open. -/
def sourceResolved (w : World) (i started : Nat) (respond : Bytes → Option (Nat × Bytes))
    (now : Nat) : World :=
  match w.source.phase? i, w.routes i with
  | some (.resolving _ _), some j =>
    match w.streams[j]? with
    | none => w
    | some st =>
      if st.commands.sent.length = st.replies.taken then
        w.sourceStep l i j (.resolved started respond now)
      else w
  | _, _ => w

/-- Call `i` reads the answer to its `SOURCE_ACTIVATE`. -/
def sourceActivated (w : World) (i : Nat) : World :=
  match w.source.phase? i, w.routes i with
  | some (.activating _ _), some j =>
    match w.streams[j]? with
    | none => w
    | some st =>
      match st.replies.next with
      | none => w
      | some response =>
        { w.modify j fun st => { st with replies := st.replies.take } with
          source := w.source.step l.suite (.continues i (.activated (some response))) }
  | _, _ => w

/-- What the source does on its own: a new call, its relay directory, an error, or the end of the
setup. -/
inductive Own where
  | connect (destination : Bytes) (useSpliced : Bool)
  | discovered (i : Nat) (relays : Option (List Bytes)) (now : Nat)
  | notDialed (i : Nat) (opened : Bool) (now : Nat)
  | notBuilt (i : Nat)
  | notResolved (i : Nat)
  | notActivated (i : Nat)
  | finished (i : Nat) (ok : Bool)

def Own.event : Own → SourceController.Event
  | .connect destination useSpliced => .connect destination useSpliced
  | .discovered i relays now => .continues i (.discovered relays now)
  | .notDialed i opened now => .continues i (.dialed (if opened then .opened none else .failed) now)
  | .notBuilt i => .continues i (.built none)
  | .notResolved i => .continues i (.resolved 0 (fun _ => none) 0)
  | .notActivated i => .continues i (.activated none)
  | .finished i ok => .continues i (.finished ok)

/-- A destination sends a message; the digest of its guard is the one it observed itself. -/
def destinationSends (w : World) (j : Nat) (m : Control) : World :=
  match w.streams[j]? with
  | none => w
  | some st =>
    if st.role ≠ .destination then w
    else
      match m with
      | .destination wire _ =>
        match st.clientEnd.relayDiversityDigest l with
        | none => w
        | some (digest, clientEnd) =>
          w.modify j fun st => { st with
            clientEnd, toServer := st.toServer.push (.destination wire digest) }
      | m => w.modify j fun st => { st with toServer := st.toServer.push m }

/-- What anyone may send on the streams they have an end of. -/
inductive Injected where
  | toServer (m : Control)
  | toClient (m : Control)
  | command (c : Command)
  | reply (b : Bytes)

def inject (honest : Bytes → Bool) (w : World) (j : Nat) (x : Injected) : World :=
  match w.streams[j]? with
  | none => w
  | some st =>
    match x with
    | .toServer m =>
      if st.role = .other then
        w.modify j fun st => { st with toServer := st.toServer.push m }
      else w
    | .command c =>
      if st.role = .other then
        w.modify j fun st => { st with commands := st.commands.push c }
      else w
    | .toClient m =>
      if honest st.server then w
      else w.modify j fun st => { st with toClient := st.toClient.push m }
    | .reply b =>
      if honest st.server then w
      else w.modify j fun st => { st with replies := st.replies.push b }

/-! ## Runs -/

inductive Event where
  | own (e : Own)
  | sourceDialed (i : Nat) (client : Bytes) (near far : Endpoint) (now : Nat)
  | sourceBuilt (i : Nat)
  | sourceAsks (i : Nat)
  | sourceAnswered (i : Nat)
  | sourceResolved (i started : Nat) (respond : Bytes → Option (Nat × Bytes)) (now : Nat)
  | sourceActivated (i : Nat)
  | serve (j now : Nat) (data : Bytes)
  | serveAnswer (j : Nat)
  | dialed (j : Nat) (near far : Endpoint)
  | published (j : Nat)
  | forward (j : Nat) (back : Bool)
  | abort (j : Nat)
  | entryClosed (relay token : Bytes)
  | moved (j : Nat) (client : Bool) (host : String) (port : Int)
  | openDestination (client server : Bytes) (near far : Endpoint)
  | destinationSends (j : Nat) (m : Control)
  | openOther (client server : Bytes) (near far : Endpoint)
  | inject (j : Nat) (x : Injected)

/-- Handlers run at honest relays only, and no one else has the key of one. -/
def step (honest : Bytes → Bool) (w : World) : Event → World
  | .own e => { w with source := w.source.step l.suite e.event }
  | .sourceDialed i client near far now =>
    if honest client then w else w.sourceDialed l i client near far now
  | .sourceBuilt i => w.sourceBuilt l i
  | .sourceAsks i => w.sourceAsks i
  | .sourceAnswered i => w.sourceAnswered i
  | .sourceResolved i started respond now => w.sourceResolved l i started respond now
  | .sourceActivated i => w.sourceActivated l i
  | .serve j now data =>
    if (w.streams[j]?).any fun st => honest st.server then w.serve l j now data else w
  | .serveAnswer j => w.serveAnswer l j
  | .dialed j near far => w.dialed l j near far
  | .published j => w.published j
  | .forward j back => w.forward j back
  | .abort j => w.abort j
  | .entryClosed relay token =>
    { w with entryCircuits := w.entryCircuits.filter fun e => ¬(e.relay = relay ∧ e.token = token) }
  | .moved j client host port =>
    w.modify j fun st =>
      if client then
        { st with clientEnd := { st.clientEnd with remoteHost := host, remotePort := port } }
      else { st with serverEnd := { st.serverEnd with remoteHost := host, remotePort := port } }
  | .openDestination client server near far =>
    if honest client then w
    else
      match { near with observed := none }.relayDiversityDigest l with
      | none => w
      | some (_, clientEnd) =>
        { w with
          streams := w.streams ++ [newStream .destination client server clientEnd
            { far with observed := none } []] }
  | .openOther client server near far =>
    if honest client then w
    else
      { w with
        streams := w.streams ++ [newStream .other client server near
          { far with observed := none } []] }
  | .destinationSends j m => w.destinationSends l j m
  | .inject j x => w.inject honest j x

def start (source : SourceController) : World := ⟨source, fun _ => none, [], [], []⟩

def run (honest : Bytes → Bool) (source : SourceController) (events : List Event) : World :=
  events.foldl (step l honest) (start source)

end World

end HyperDht.Private.RouteNetwork
