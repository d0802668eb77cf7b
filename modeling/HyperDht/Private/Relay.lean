import HyperDht.Private.EntryCredit
import HyperDht.Private.LinkReceive
import HyperDht.Private.SendScheduler

/-!
# A relay and its registries

The control handlers of a relay end in an object that carries a route: a bridge
between two links (`transformBridge`), or an `EntryCircuit` that destinations
register and sources activate. The controller keeps them in `bridges`,
`destinationBridges` and `entryCircuits`, and their close handlers take them out.

An event is one turn of the event loop: the last part of a handler, after its last
`await`; bytes that arrive on a link, in any split; a flush or a write that ends; a
timer; a stream that ends; and `suspend` and `destroy`. Which events come in which
order is left open, so the control sessions may interleave in any way. Objects are
named by their number in the order they were made, and stay in the model when they
are closed.
-/

namespace HyperDht.Private.Relay

/-- `LOGICAL_RESET` and `LOGICAL_SPLICE_READY`. -/
def resetFlag : UInt8 := 3
def spliceReadyFlag : UInt8 := 8

/-- The logical frame in the bytes of a payload. -/
def payloadOf (bytes : Bytes) : Payload :=
  if bytes.length < logicalHeaderBytes then .garbage
  else
    let id := readU32 bytes
    let data := bytes.drop logicalHeaderBytes
    let amount := data.foldl (fun n b => n * 256 + b.toNat) 0
    match (bytes.getD 4 0).toNat, data.length with
    | 0, _ => .frame ⟨id, .data data⟩
    | 1, 0 => .frame ⟨id, .openStream⟩
    | 2, 0 => .frame ⟨id, .fin⟩
    | 3, 0 => .frame ⟨id, .reset⟩
    | 4, 2 => .frame ⟨id, .credit amount⟩
    | 5, 2 => .frame ⟨id, .demand amount⟩
    | 6, 2 => .frame ⟨id, .release amount⟩
    | 7, 4 => .frame ⟨id, .spliceOpen amount⟩
    | 8, 4 => .frame ⟨id, .spliceReady amount⟩
    | _, _ => .garbage

/-- What the relay's code calls outside: the crypto functions, and the raw streams of
splices. `udx` gives the ids of the two raw streams at an object's n-th splice frame,
or `none` where creating or connecting them throws. -/
structure Env where
  crypto : Crypto
  aeadOpen : AeadOpening → Option Bytes
  udx : Nat → Nat → Option (Nat × Nat)

/-! ## Bridges -/

inductive End where
  | left
  | right
  deriving DecidableEq, Repr

def End.other : End → End
  | .left => .right
  | .right => .left

/-- What `forward` reads and writes: the sending sides of the two links and the
splices. -/
structure Passing where
  sends : End → Scheduler
  splices : JsMap Nat Splice
  spliceCalls : Nat

namespace Passing

/-- `to.send`; `none` where it destroys the link, whose close handler closes the
bridge. -/
def sendOn (p : Passing) (target : End) (payload : Bytes) : Option Passing :=
  let sends := (p.sends target).call (some payload)
  if sends.destroyed then none else some { p with sends := Function.update p.sends target sends }

/-- `forward` of a payload that arrived on `side`; `none` where it closes the bridge. -/
def forward (udx : Nat → Option (Nat × Nat)) (side : End) (payload : Bytes) (p : Passing) :
    Option Passing :=
  let streamId := readU32 payload
  let header := payload.take logicalHeaderBytes
  if payload[4]? = some spliceOpenFlag ∧ payload.length = logicalHeaderBytes + 4 then
    if p.splices.has streamId ∨ maxSplicedRouteStreams ≤ p.splices.size then none
    else
      match udx p.spliceCalls with
      | none => none
      | some (up, down) =>
        { p with
          splices := p.splices.set streamId ⟨up, down, false⟩
          spliceCalls := p.spliceCalls + 1 }.sendOn side.other (header ++ writeUintBE 4 down)
  else if payload[4]? = some spliceReadyFlag ∧ payload.length = logicalHeaderBytes + 4 then
    match p.splices.get? streamId with
    | none => none
    | some pair =>
      if pair.active then none
      else
        match udx p.spliceCalls with
        | none => none
        | some _ =>
          { p with
            splices := p.splices.set streamId { pair with active := true }
            spliceCalls := p.spliceCalls + 1 }.sendOn side.other (header ++ writeUintBE 4 pair.up)
  else if payload[4]? = some resetFlag ∧ payload.length = logicalHeaderBytes then
    { p with splices := p.splices.delete streamId }.sendOn side.other payload
  else p.sendOn side.other payload

def forwards (udx : Nat → Option (Nat × Nat)) (side : End) : List Bytes → Passing → Option Passing
  | [], p => some p
  | b :: bs, p => (p.forward udx side b).bind (forwards udx side bs)

end Passing

/-- `onclose` says that the bridge was made with a close handler, the one that takes it
out of `destinationBridges`. -/
structure Bridge where
  inbound : End → Inbound
  passing : Passing
  closed : Bool
  onclose : Bool

structure BridgeLink where
  inbound : Inbound
  sends : Scheduler

def Bridge.new (left right : BridgeLink) (onclose : Bool) : Bridge :=
  ⟨fun | .left => left.inbound | .right => right.inbound,
    ⟨fun | .left => left.sends | .right => right.sends, .empty, 0⟩, false, onclose⟩

/-! ## The registries -/

/-- The registries of the controller: sets and maps of objects. -/
structure Registries where
  bridges : List Nat
  destinationBridges : List Nat
  entryCircuits : JsMap Bytes Nat
  pendingEntryRegistrations : JsMap Bytes Nat

namespace Registries

/-- What the `close` of a bridge takes out. -/
def dropBridge (r : Registries) (b : Nat) (onclose : Bool) : Registries :=
  { r with
    bridges := r.bridges.filter (· ≠ b)
    destinationBridges := if onclose then r.destinationBridges.filter (· ≠ b)
      else r.destinationBridges }

/-- The close handler that `_handleEntryRegister` installs. -/
def dropEntry (r : Registries) (token : Bytes) (e : Nat) : Registries :=
  if r.entryCircuits.get? token = some e then
    { r with entryCircuits := r.entryCircuits.delete token }
  else r

end Registries

/-- `close` of a bridge; the close events of its links find it closed. -/
def closeBridge (b : Nat) (s : Registries × Bridge) : Registries × Bridge :=
  if s.2.closed then s
  else (s.1.dropBridge b s.2.onclose, { s.2 with
    closed := true
    inbound := fun d => (s.2.inbound d).destroy
    passing := ⟨fun d => (s.2.passing.sends d).destroy, .empty, s.2.passing.spliceCalls⟩ })

def bridgeOwner (env : Env) (b : Nat) (side : End) : LinkOwner (Registries × Bridge) where
  destroyed s := (s.2.passing.sends side).destroyed
  inbound s := s.2.inbound side
  setInbound i s := (s.1, { s.2 with inbound := Function.update s.2.inbound side i })
  destroy s := closeBridge b s
  emit payload s :=
    match s.2.passing.forward (env.udx b) side payload with
    | none => closeBridge b s
    | some passing => (s.1, { s.2 with passing })

/-! ## Entry circuits -/

/-- An `EntryCircuit` with the receiving sides of its links; `tracked` says that the
close handler of `_handleEntryRegister` is installed. -/
structure EntryCircuit where
  routeToken : Bytes
  circuit : Entry
  inbound : Inbound
  legs : Nat → Inbound
  spliceCalls : Nat
  tracked : Bool

/-- What the entry does with its circuit. Its link closes when it does, and an installed
close handler runs. -/
def runEntry (e : Nat) (f : Entry → Entry) (s : Registries × EntryCircuit) :
    Registries × EntryCircuit :=
  let circuit := f s.2.circuit
  (if s.2.circuit.closed = false ∧ circuit.closed ∧ s.2.tracked then s.1.dropEntry s.2.routeToken e
    else s.1, { s.2 with circuit })

/-- The link between an entry and its destination's guard. -/
def entryOwner (now : Int) (e : Nat) : LinkOwner (Registries × EntryCircuit) where
  destroyed s := s.2.circuit.link.destroyed
  inbound s := s.2.inbound
  setInbound i s := (s.1, { s.2 with inbound := i })
  destroy s := runEntry e Entry.destroy s
  emit payload s := runEntry e (Entry.receive now · (payloadOf payload)) s

def legOwner (env : Env) (now : Int) (e id : Nat) : LinkOwner (Registries × EntryCircuit) where
  destroyed s := s.2.circuit.closed || ((s.2.circuit.links.get? id).map Link.destroyed).getD true
  inbound s := s.2.legs id
  setInbound i s := (s.1, { s.2 with legs := Function.update s.2.legs id i })
  destroy s := runEntry e (Entry.closeLeg now · id) s
  emit payload s :=
    runEntry e (Entry.fromSource now · id (payloadOf payload) (env.udx e s.2.spliceCalls))
      (s.1, { s.2 with spliceCalls := s.2.spliceCalls + 1 })

/-! ## The controller -/

/-- `bridgeAt` and `entryAt` are all bridges and entries made; `registering` are the
handlers of `_handleEntryRegister` that marked their token, by their stream. -/
structure Controller where
  spliced : Bool
  registries : Registries
  bridgeAt : List Bridge
  entryAt : List EntryCircuit
  registering : JsMap Nat Bytes
  suspended : Bool
  destroyed : Bool

namespace Controller

def new (spliced : Bool) : Controller :=
  ⟨spliced, ⟨[], [], .empty, .empty⟩, [], [], .empty, false, false⟩

def atBridge (c : Controller) (b : Nat) (f : Registries × Bridge → Registries × Bridge) :
    Controller :=
  match c.bridgeAt[b]? with
  | none => c
  | some bridge =>
    let s := f (c.registries, bridge)
    { c with registries := s.1, bridgeAt := c.bridgeAt.set b s.2 }

def atEntry (c : Controller) (e : Nat)
    (f : Registries × EntryCircuit → Registries × EntryCircuit) : Controller :=
  match c.entryAt[e]? with
  | none => c
  | some entry =>
    let s := f (c.registries, entry)
    { c with registries := s.1, entryAt := c.entryAt.set e s.2 }

/-- `transformBridge`; no bridge is returned where `start` throws. -/
def transformBridge (env : Env) (now : Int) (c : Controller) (left right : BridgeLink)
    (onclose : Bool) (rawLeft rawRight : ReadBuffer) : Controller × Option Nat :=
  let b := c.bridgeAt.length
  let add (s : Registries × Bridge) : Controller :=
    { c with registries := s.1, bridgeAt := c.bridgeAt ++ [s.2] }
  match (bridgeOwner env b .left).start env.aeadOpen now rawLeft
      (c.registries, .new left right onclose) with
  | (s, false) => (add s, none)
  | (s, true) =>
    match (bridgeOwner env b .right).start env.aeadOpen now rawRight s with
    | (s, false) => (add s, none)
    | (s, true) => (add s, some b)

/-- `bridges.add`, and `destinationBridges.add` for a bridge of a destination. -/
def addBridge (c : Controller) (b : Nat) (destination : Bool) : Controller :=
  { c with registries := { c.registries with
    bridges := c.registries.bridges.insert b
    destinationBridges := if destination then c.registries.destinationBridges.insert b
      else c.registries.destinationBridges } }

def buildDestination (env : Env) (now : Int) (c : Controller) (local' downstream : RouteContext)
    (rawLeft rawRight : ReadBuffer) : Controller :=
  match Inbound.new env.crypto local' false maxRouteStreams,
    Inbound.new env.crypto downstream true maxRouteStreams with
  | .ok left, .ok right =>
    match c.transformBridge env now ⟨left, .new true⟩ ⟨right, .new true⟩ true rawLeft rawRight with
    | (c, none) => c
    | (c, some b) => c.addBridge b true
  | _, _ => c

def buildSource (env : Env) (now : Int) (c : Controller) (local' downstream : RouteContext)
    (rawLeft rawRight : ReadBuffer) : Controller :=
  match Inbound.new env.crypto local' false 1, Inbound.new env.crypto downstream true 1 with
  | .ok left, .ok right =>
    match c.transformBridge env now ⟨left, .new false⟩ ⟨right, .new false⟩ false rawLeft
      rawRight with
    | (c, none) => c
    | (c, some b) => c.addBridge b false
  | _, _ => c

/-- The end of `_handleExtendSource`. The left link has been in use for the control
cells, and `inbox.detach` throws if it is destroyed; what the inbox still holds is
emitted once the bridge is in place. -/
def extendSource (env : Env) (now : Int) (c : Controller) (left : BridgeLink) (queued : List Bytes)
    (downstream : RouteContext) (rawRight : ReadBuffer) : Controller :=
  if left.sends.destroyed ∨ left.inbound.started = false then c
  else
    match Inbound.new env.crypto downstream true 1 with
    | .error _ => c
    | .ok right =>
      match c.transformBridge env now left ⟨right, .new false⟩ false ⟨true, [], true⟩ rawRight with
      | (c, none) => c
      | (c, some b) =>
        queued.foldl (fun c payload => c.atBridge b ((bridgeOwner env b .left).emit payload))
          (c.addBridge b false)

/-- `_handleEntryRegister` up to the mark of its token. -/
def registerEntry (c : Controller) (stream : Nat) (routeToken : Bytes) : Controller :=
  if c.registries.entryCircuits.has routeToken ∨
      c.registries.pendingEntryRegistrations.has routeToken ∨ c.registering.has stream then c
  else { c with
    registering := c.registering.set stream routeToken
    registries := { c.registries with
      pendingEntryRegistrations := c.registries.pendingEntryRegistrations.set routeToken stream } }

/-- `_handleEntryRegister` after the commit byte: the constructor of `EntryCircuit`, the
entry in the registry, and its close handler. -/
def commitEntry (env : Env) (now : Int) (c : Controller) (stream : Nat) (context : RouteContext)
    (raw : ReadBuffer) : Controller :=
  match c.registering.get? stream, Inbound.new env.crypto context false maxRouteStreams with
  | some token, .ok inbound =>
    let e := c.entryAt.length
    match (entryOwner now e).start env.aeadOpen now raw
        (c.registries, ⟨token, .new c.spliced, inbound, fun _ => inbound, 0, false⟩) with
    | (s, false) => { c with registries := s.1, entryAt := c.entryAt ++ [s.2] }
    | (s, true) => { c with
        registries := { s.1 with entryCircuits := s.1.entryCircuits.set token e }
        entryAt := c.entryAt ++ [{ s.2 with tracked := true }] }
  | _, _ => c

/-- The `finally` of `_handleEntryRegister`. -/
def endRegistration (c : Controller) (stream : Nat) : Controller :=
  match c.registering.get? stream with
  | none => c
  | some token =>
    let c := { c with registering := c.registering.delete stream }
    if c.registries.pendingEntryRegistrations.get? token = some stream then
      { c with registries := { c.registries with
        pendingEntryRegistrations := c.registries.pendingEntryRegistrations.delete token } }
    else c

/-- The end of `_handleEntryActivate`: `activate` of the entry the handler found, with the
`start` of the new leg. -/
def activate (env : Env) (now : Int) (c : Controller) (e : Nat) (context : RouteContext)
    (raw : ReadBuffer) : Controller :=
  match Inbound.new env.crypto context false 1 with
  | .error _ => c
  | .ok inbound =>
    c.atEntry e fun s =>
      let id := s.2.circuit.nextStreamId
      let s' := runEntry e (fun circuit => (circuit.activate raw.readable).1)
        (s.1, { s.2 with legs := Function.update s.2.legs id inbound })
      match (s.2.circuit.activate raw.readable).2 with
      | none => s'
      | some id => ((legOwner env now e id).start env.aeadOpen now raw s').1

/-- `entry.destroy` of every registered entry. -/
def destroyEntries (c : Controller) : Controller :=
  let c := c.registries.entryCircuits.values.foldl
    (fun c e => c.atEntry e (runEntry e Entry.destroy)) c
  { c with registries := { c.registries with
    entryCircuits := .empty
    pendingEntryRegistrations := .empty } }

/-- `bridge.destroy` of every registered bridge. -/
def destroyBridges (c : Controller) : Controller :=
  let c := c.registries.bridges.foldl (fun c b => c.atBridge b (closeBridge b)) c
  { c with registries := { c.registries with bridges := [], destinationBridges := [] } }

end Controller

/-! ## The turns of a relay -/

/-- What an entry does that is not a payload: its timers, its links, its splices. -/
def ownTurn : EntryEvent → Bool
  | .activate _ | .fromSource .. | .receive .. => false
  | _ => true

/-- One turn. The flushes and writes of a bridge's link are those of its scheduler; a
stream that ends, fails or closes destroys its link; `suspended` is the rest of `suspend`,
after its awaits. -/
inductive RelayEvent where
  | buildDestination (now : Int) (local' downstream : RouteContext) (left right : ReadBuffer)
  | buildSource (now : Int) (local' downstream : RouteContext) (left right : ReadBuffer)
  | extendSource (now : Int) (left : BridgeLink) (queued : List Bytes) (downstream : RouteContext)
      (right : ReadBuffer)
  | registerEntry (stream : Nat) (routeToken : Bytes)
  | commitEntry (now : Int) (stream : Nat) (context : RouteContext) (raw : ReadBuffer)
  | endRegistration (stream : Nat)
  | activate (now : Int) (e : Nat) (context : RouteContext) (raw : ReadBuffer)
  | bridgeData (now : Int) (b : Nat) (side : End) (address : Bool) (chunk : Bytes)
  | bridgeFlush (b : Nat) (side : End) (outcomes : List Scheduler.Sealing)
  | bridgeWritten (b : Nat) (side : End) (batch : Nat) (error : Bool)
  | bridgeStreamClosed (b : Nat)
  | bridgeSpliceClosed (b streamId : Nat)
  | entryData (now : Int) (e : Nat) (address : Bool) (chunk : Bytes)
  | legData (now : Int) (e id : Nat) (address : Bool) (chunk : Bytes)
  | entryTurn (e : Nat) (event : EntryEvent)
  | suspend
  | suspended
  | resume
  | destroy

/-- A scheduler of a bridge's link moves on; what it seals is charged, and if it
destroys the link the bridge closes. -/
def progressSends (b : Nat) (side : End) (f : Scheduler → Scheduler) (s : Registries × Bridge) :
    Registries × Bridge :=
  if s.2.closed then s
  else
    let before := s.2.passing.sends side
    let sends := f before
    let i := s.2.inbound side
    let ledgers := (sends.sealed.drop before.sealed.length).foldl LinkLedgers.sealCell i.ledgers
    if sends.destroyed then closeBridge b s
    else (s.1, { s.2 with
      inbound := Function.update s.2.inbound side { i with ledgers }
      passing := { s.2.passing with sends := Function.update s.2.passing.sends side sends } })

/-- Bytes arrive on a link that is started. -/
def receiveStarted {σ : Type} (w : LinkOwner σ) (aeadOpen : AeadOpening → Option Bytes) (now : Int)
    (address : Bool) (chunk : Bytes) (s : σ) : σ :=
  if (w.inbound s).started then w._receive aeadOpen now address chunk s else s

namespace Controller

def step (env : Env) (c : Controller) : RelayEvent → Controller
  | .buildDestination now local' downstream left right =>
    c.buildDestination env now local' downstream left right
  | .buildSource now local' downstream left right =>
    c.buildSource env now local' downstream left right
  | .extendSource now left queued downstream right =>
    c.extendSource env now left queued downstream right
  | .registerEntry stream routeToken => c.registerEntry stream routeToken
  | .commitEntry now stream context raw => c.commitEntry env now stream context raw
  | .endRegistration stream => c.endRegistration stream
  | .activate now e context raw => c.activate env now e context raw
  | .bridgeData now b side address chunk =>
    c.atBridge b (receiveStarted (bridgeOwner env b side) env.aeadOpen now address chunk)
  | .bridgeFlush b side outcomes => c.atBridge b (progressSends b side (·.microtask outcomes))
  | .bridgeWritten b side batch error =>
    c.atBridge b (progressSends b side (·._finishBatch batch error))
  | .bridgeStreamClosed b => c.atBridge b (closeBridge b)
  | .bridgeSpliceClosed b streamId => c.atBridge b fun s => (s.1, { s.2 with
      passing := { s.2.passing with splices := s.2.passing.splices.delete streamId } })
  | .entryData now e address chunk =>
    c.atEntry e (receiveStarted (entryOwner now e) env.aeadOpen now address chunk)
  | .legData now e id address chunk =>
    c.atEntry e (receiveStarted (legOwner env now e id) env.aeadOpen now address chunk)
  | .entryTurn e event => c.atEntry e fun s =>
      if s.2.circuit.closed ∨ ownTurn event = false then s else runEntry e (·.step event) s
  | .suspend => if c.destroyed ∨ c.suspended then c else { c with suspended := true }
  | .suspended => c.destroyEntries
  | .resume => if c.destroyed ∨ c.suspended = false then c else { c with suspended := false }
  | .destroy => if c.destroyed then c else { c with destroyed := true }.destroyEntries.destroyBridges

def run (env : Env) (c : Controller) (events : List RelayEvent) : Controller :=
  events.foldl (step env) c

end Controller

end HyperDht.Private.Relay
