import HyperDht.Private.Link
import HyperDht.Private.RouteStream

/-!
# The destination circuit

`DestinationCircuit` has one link and one stream for each source that opened
one: a logical stream, or the raw udx stream of a splice, which has none of the
methods of a logical stream. DATA is charged against `receiveCredit` before its
stream is looked up, and the credit comes back through `consumed`. The circuit
credit of the logical streams is shared through `sendPool`, whose `onGrant` is
the stream's `grantCircuit`; that may give credit back inside the pool's loop.

A pool method or a grant that throws ends the method that called it: such
methods return a flag that says so. `faults` records each check that failed, in
order. `others` counts the streams of the server's other circuits.
-/

namespace HyperDht.Private

/-- A stream of the circuit. The raw stream of a splice keeps whether the remote
end reset it. -/
inductive DestStream where
  | logical (s : RouteStream)
  | spliced (remoteReset : Bool)

inductive DestFault where
  | decode
  | unexpected
  | openId
  | receiveCredit
  | foreignId
  | noReceive
  | returned (f : PoolFault)
  | added (f : PoolFault)
  | grant
  | acceptance
  | overflow
  | stream (f : StreamFault)
  deriving DecidableEq, Repr

/-- What an OPEN finds outside the circuit: whether the link's udx socket is
there, the id of the raw stream created for a splice (`none` where that throws),
and whether the application's side of the connection is set up without a throw. -/
structure Acceptance where
  socket : Bool
  splice : Option Nat
  accepts : Bool
  deriving DecidableEq, Repr

structure Dest where
  link : Link
  streams : JsMap Nat DestStream
  lastStreamId : Nat
  closed : Bool
  retired : Bool
  others : Nat
  receiveCredit : Nat
  returnPending : Nat
  returnTimer : Bool
  sendPool : Pool Nat
  faults : List DestFault

namespace Dest

def new (others : Nat) : Dest :=
  ⟨.new true, .empty, 0, false, false, others, circuitWindow, 0, false, .new, []⟩

def stream? (d : Dest) (id : Nat) : Option RouteStream :=
  match d.streams.get? id with
  | some (.logical s) => some s
  | _ => none

def setStream (d : Dest) (id : Nat) (s : RouteStream) : Dest :=
  { d with streams := d.streams.set id (.logical s) }

def modify (d : Dest) (id : Nat) (f : RouteStream → RouteStream) : Dest :=
  match d.stream? id with
  | none => d
  | some s => d.setStream id (f s)

def fault (d : Dest) (f : DestFault) : Dest := { d with faults := d.faults ++ [f] }

/-- The server's `_activeStreams`. -/
def activeStreams (d : Dest) : Nat := d.others + d.streams.size

/-- `destroy`. The streams are destroyed too, and are no longer the circuit's. -/
def destroy (d : Dest) : Dest :=
  if d.closed then d
  else { d with
    closed := true
    returnTimer := false
    sendPool := d.sendPool.destroy
    streams := .empty
    link := d.link.destroy }

/-- `sendLogical` on the link; its close handler destroys the circuit. -/
def sendOut (d : Dest) (f : Frame) : Dest :=
  if d.link.destroyed then d
  else if d.link.full f then d.destroy
  else { d with link := d.link.enqueue f }

/-- `consumed`. The check is recorded as a fault; it never fails. -/
def consumed (d : Dest) (amount : Nat) (flush : Bool) : Dest :=
  if d.closed then d
  else
    let pending := d.returnPending + amount
    if pending = 0 then d
    else if flush = false ∧ pending < circuitCreditBatch then
      { d with returnPending := pending, returnTimer := true }
    else
      let d := { d with
        returnPending := 0
        returnTimer := false
        receiveCredit := d.receiveCredit + pending }
      if circuitWindow < d.receiveCredit then d.fault .overflow
      else d.sendOut ⟨circuitStreamId, .credit pending⟩

/-! ## Circuit credit -/

/-- `_releaseCircuit`, with the distribution that follows `release`. -/
def releaseWith (distribute : Dest → Dest × Bool) (d : Dest) (id : Nat) : Dest × Bool :=
  match d.stream? id with
  | none => (d, false)
  | some s =>
    if d.link.destroyed then (d, false)
    else
      let d := { d with sendPool := d.sendPool.cancel id }
        |>.setStream id { s with circuitRequested := 0, circuitCredit := 0 }
      if s.circuitCredit = 0 then (d, false)
      else
        match d.sendPool.release id s.circuitCredit with
        | .error f => (d.fault (.stream (.pool f)), true)
        | .ok pool => distribute { d with sendPool := pool }

/-- The part of `grantCircuit` after its check, for the stream with its new
credit. The pool's loop is running, so the `_distribute` of a `release` returns
at once. -/
def takeGrant (now : Int) (d : Dest) (id : Nat) (s : RouteStream) : Dest × Bool :=
  let d := d.setStream id s
  match if s.sendCredit = 0 ∨ s.localEnded then releaseWith (fun d => (d, false)) d id
    else (d.modify id .wakeWriter, false) with
  | (d, true) => (d, true)
  | (d, false) =>
    if s.writer.writing then (d, false)
    else (d.modify id fun s => s.scheduleIdle d.link.destroyed now, false)

def grantCircuit (now : Int) (id amount : Nat) (d : Dest) : Dest × Bool :=
  match d.stream? id with
  | none => (d, false)
  | some s =>
    if s.destroying then (d, false)
    else if amount < 1 ∨ s.circuitRequested < amount ∨ circuitWindow < s.circuitCredit + amount then
      (d.fault (.stream .grantCircuit), true)
    else
      takeGrant now d id { s with
        circuitRequested := s.circuitRequested - amount
        circuitCredit := s.circuitCredit + amount }

/-- The pool of a circuit: a grant goes to the stream. -/
def host (now : Int) : Host Nat Dest where
  pool := sendPool
  setPool d pool := { d with sendPool := pool }
  onGrant := grantCircuit now
  pool_setPool _ _ := rfl

/-- `_distribute` of the circuit's pool; the loop needs at most one round for
each cell wanted. -/
def distribute (now : Int) (d : Dest) : Dest × Bool :=
  (host now).distribute ((d.sendPool.legs.total fun _ leg => leg.wanted) + 1) now d

def releaseCircuit (now : Int) (d : Dest) (id : Nat) : Dest × Bool :=
  releaseWith (distribute now) d id

def requestCircuit (now : Int) (d : Dest) (id : Nat) : Dest × Bool :=
  match d.stream? id with
  | none => (d, false)
  | some s =>
    if s.wantsCircuit d.link.destroyed = false then (d, false)
    else
      let amount := circuitWindow - s.circuitCredit
      let d := d.setStream id { s with circuitRequested := amount }
      match d.sendPool.demand id amount false now with
      | .error f => (d.fault (.stream (.pool f)), true)
      | .ok (pool, true) => distribute now { d with sendPool := pool }
      | .ok (pool, false) => ({ d with sendPool := pool }, false)

/-! ## Frames -/

def destroyStream (d : Dest) (id : Nat) : Dest := d.modify id .destroy

def failStream (d : Dest) (id : Nat) (f : StreamFault) : Dest :=
  (d.fault (.stream f)).destroyStream id

/-- `receive` of a logical stream. -/
def receiveData (d : Dest) (id : Nat) (s : RouteStream) (chunk : List UInt8) : Dest :=
  if s.destroying then d.consumed 1 false
  else if s.remoteEnded then (d.consumed 1 false).failStream id .ended
  else
    match s.receiveOpen chunk with
    | (s, none) => d.setStream id s
    | (s, some f) => (d.setStream id s).fault (.stream f)

/-- `grantStream` of a logical stream. -/
def grantStream (now : Int) (d : Dest) (id : Nat) (s : RouteStream) (amount : Nat) : Dest :=
  if s.destroying then d
  else if amount < 1 ∨ streamWindow < s.sendCredit + amount then d.failStream id .grantStream
  else
    let d := d.setStream id { s with sendCredit := s.sendCredit + amount }
    match if s.writer.writing then requestCircuit now d id else (d, false) with
    | (d, true) => d.destroyStream id
    | (d, false) => d.modify id .wakeWriter

def deliver (now : Int) (d : Dest) (id : Nat) : DestStream → Body → Dest
  | .logical s, .data chunk => d.receiveData id s chunk
  | .logical s, .fin => d.setStream id s.remoteFin
  | .logical s, .reset => d.setStream id s.remoteReset
  | .logical s, .credit amount => grantStream now d id s amount
  | .logical _, _ => d.failStream id .unexpected
  -- `stream.receive` is not a function here, and the call throws
  | .spliced _, .data _ => d.fault .noReceive
  | .spliced _, .fin => d
  | .spliced _, .reset => { d with streams := d.streams.set id (.spliced true) }
  | .spliced _, .credit _ => d
  | .spliced _, _ => d.fault .unexpected

/-- `_open`. -/
def openLogical (d : Dest) (id : Nat) (a : Acceptance) : Dest :=
  if id % 2 ≠ 0 ∨ id ≤ d.lastStreamId then (d.fault .openId).destroy
  else
    let d := { d with lastStreamId := id }
    if d.retired ∨ maxRouteStreams ≤ d.activeStreams then d.sendOut ⟨id, .reset⟩
    else
      match d.sendPool.add id with
      | .error f => (d.fault (.added f)).destroy
      | .ok pool =>
        let d := { d with sendPool := pool }.setStream id .new
        if a.accepts then d else (d.fault .acceptance).destroy

def openSpliced (d : Dest) (id guardDownId : Nat) (a : Acceptance) : Dest :=
  if id % 2 ≠ 0 ∨ id ≤ d.lastStreamId ∨ guardDownId = 0 then (d.fault .openId).destroy
  else
    let d := { d with lastStreamId := id }
    if d.retired ∨ maxSplicedRouteStreams ≤ d.activeStreams then d.sendOut ⟨id, .reset⟩
    else if a.socket = false then d.sendOut ⟨id, .reset⟩
    else
      match a.splice with
      | none => (d.fault .acceptance).destroy
      | some udxId =>
        let d := { d with streams := d.streams.set id (.spliced false) }
        if a.accepts then d.sendOut ⟨id, .spliceReady udxId⟩ else (d.fault .acceptance).destroy

/-- `_receive` once a DATA frame is charged. -/
def receiveCharged (now : Int) (d : Dest) (f : Frame) : Dest :=
  match d.streams.get? f.streamId with
  | some st => deliver now d f.streamId st f.body
  | none =>
    if f.streamId % 2 = 0 ∧ f.streamId ≤ d.lastStreamId then
      if f.body.isData then d.consumed 1 false else d
    else if f.body = .fin ∨ f.body = .reset then d
    else (d.fault .foreignId).destroy

/-- `_receive`: a payload opened on the link. -/
def receive (now : Int) (d : Dest) (payload : Payload) (a : Acceptance) : Dest :=
  if d.closed then d
  else
    match decodeLogical payload with
    | none => (d.fault .decode).destroy
    | some f =>
      if f.streamId = circuitStreamId then
        match f.body with
        | .credit amount =>
          match d.sendPool.returned amount with
          | .error fault => (d.fault (.returned fault)).destroy
          | .ok pool =>
            match distribute now { d with sendPool := pool } with
            | (d, true) => (d.fault .grant).destroy
            | (d, false) => d
        | _ => (d.fault .unexpected).destroy
      else if f.streamId = 0 then (d.fault .unexpected).destroy
      else
        match f.body with
        | .openStream => d.openLogical f.streamId a
        | .spliceOpen guardDownId => d.openSpliced f.streamId guardDownId a
        | .data _ =>
          if d.receiveCredit = 0 then (d.fault .receiveCredit).destroy
          else receiveCharged now { d with receiveCredit := d.receiveCredit - 1 } f
        | _ => receiveCharged now d f

/-! ## The application's side of a stream -/

/-- A throw in `_sendData`; its `finally` clause may set the idle timer. -/
def failWrite (now : Int) (d : Dest) (id : Nat) : Dest :=
  d.modify id fun s => { s with writer := .failed }.scheduleIdle d.link.destroyed now

/-- The inner loop of `_sendData`: `n` cells, after which it awaits them. -/
def sendBatch (now : Int) (id : Nat) : Nat → Dest → List UInt8 → Dest
  | 0, d, rest => d.modify id fun s => { s with writer := .draining rest }
  | n + 1, d, rest =>
    match d.stream? id with
    | none => d
    | some s =>
      let chunk := rest.take maxLogicalPayload
      let s := s.countCell chunk.length
      if s.overTotals then failWrite now ((d.setStream id s).fault (.stream .totals)) id
      else
        let s := s.spendCell
        match d.sendPool.sent id 1 now with
        | .error f => failWrite now ((d.setStream id s).fault (.stream (.pool f))) id
        | .ok pool =>
          sendBatch now id n
            (({ d with sendPool := pool }.setStream id s).sendOut ⟨id, .data chunk⟩)
            (rest.drop maxLogicalPayload)

/-- The loop of `_sendData` from its head to the next await. -/
def resume (now : Int) (d : Dest) (id : Nat) (rest : List UInt8) : Dest :=
  match d.stream? id with
  | none => d
  | some s =>
    if rest = [] then
      d.setStream id ({ s with writer := .idle }.scheduleIdle d.link.destroyed now)
    else if s.destroying ∨ d.link.destroyed then failWrite now d id
    else
      match if s.sendCredit = 0 then releaseCircuit now d id else requestCircuit now d id with
      | (d, true) => failWrite now d id
      | (d, false) =>
        match d.stream? id with
        | none => d
        | some s =>
          if s.sendCredit = 0 ∨ s.circuitCredit = 0 then
            if s.destroying ∨ d.link.destroyed then failWrite now d id
            else d.setStream id { s with writer := .waiting rest }
          else sendBatch now id (s.batch rest) d rest

/-- `_write`. The stream machinery calls it for one write at a time, and not on
a destroyed or ended stream. -/
def write (now : Int) (d : Dest) (id : Nat) (data : List UInt8) : Dest :=
  match d.stream? id with
  | none => d
  | some s =>
    if s.destroying ∨ s.localEnded ∨ s.writer ≠ .idle then d
    else if d.link.destroyed then d.setStream id { s with writer := .failed }
    else resume now (d.setStream id { s with writer := .woken data, idleTimer := none }) id data

/-- The writer goes on after its await: with its credit, or with its batch written. -/
def resumed (now : Int) (d : Dest) (id : Nat) (ok : Bool) : Dest :=
  match d.stream? id with
  | none => d
  | some s =>
    match s.writer with
    | .woken rest => resume now d id rest
    | .draining rest => if ok then resume now d id rest else failWrite now d id
    | .failed => d.destroyStream id
    | _ => d

def final (now : Int) (d : Dest) (id : Nat) : Dest :=
  match d.stream? id with
  | none => d
  | some s =>
    if s.destroying ∨ s.localEnded ∨ s.writer ≠ .idle then d
    else
      match releaseCircuit now (d.setStream id { s with localEnded := true }) id with
      | (d, true) => d.destroyStream id
      | (d, false) => d.sendOut ⟨id, .fin⟩

/-- The part of `_read` that returns the credit of the chunk read before. -/
def readBack (d : Dest) (id : Nat) (s : RouteStream) : Dest :=
  if s.delivered then
    let pending := s.streamReturnPending + 1
    let s := { s with delivered := false, receivedOutstanding := s.receivedOutstanding - 1 }
    if streamCreditBatch ≤ pending then
      ((d.setStream id { s with
          streamReturnPending := 0
          receiveCredit := s.receiveCredit + pending }).sendOut ⟨id, .credit pending⟩).consumed 1 false
    else (d.setStream id { s with streamReturnPending := pending }).consumed 1 false
  else d

/-- `_read`; the stream machinery does not call it on a destroyed stream. -/
def read (d : Dest) (id : Nat) : Dest :=
  match d.stream? id with
  | none => d
  | some s =>
    if s.destroying then d
    else (d.readBack id s).modify id fun s => { s with wantRead := true }.drain

/-- A retired circuit closes with its last stream. -/
def closeIfEmpty (d : Dest) : Dest := if d.retired ∧ d.streams.size = 0 then d.destroy else d

def finish (d : Dest) (id : Nat) : Dest := closeIfEmpty { d with streams := d.streams.delete id }

def removeLeg (now : Int) (d : Dest) (id : Nat) : Dest × Bool :=
  match d.sendPool.remove id with
  | (pool, true) => distribute now { d with sendPool := pool }
  | (pool, false) => ({ d with sendPool := pool }, false)

/-- The part of `_destroy` after the RESET: the pool's leg and the credit of
what was not read. -/
def tearDown (now : Int) (d : Dest) (id : Nat) : Dest × Bool :=
  match d.stream? id with
  | none => (d, false)
  | some s =>
    match removeLeg now d id with
    | (d, true) => (d, true)
    | (d, false) => ((d.modify id .tear).consumed s.receivedOutstanding true, false)

/-- `_destroy`, which the stream machinery runs once on a destroyed stream. -/
def runDestroy (now : Int) (d : Dest) (id : Nat) : Dest :=
  match d.stream? id with
  | none => d
  | some s =>
    if s.destroying = false ∨ s.torn then d
    else if (s.localEnded ∧ s.remoteEnded) ∨ s.remoteResetReceived ∨ d.link.destroyed then
      match tearDown now d id with
      | (d, true) => d
      | (d, false) => d.finish id
    else (tearDown now (d.sendOut ⟨id, .reset⟩) id).1

/-- The RESET of a torn stream is written or has failed. -/
def closeStream (d : Dest) (id : Nat) : Dest :=
  match d.stream? id with
  | none => d
  | some s => if s.torn then d.finish id else d

def spliceClosed (d : Dest) (id : Nat) : Dest :=
  match d.streams.get? id with
  | some (.spliced remoteReset) =>
    let d := { d with streams := d.streams.delete id }
    (if remoteReset then d else d.sendOut ⟨id, .reset⟩).closeIfEmpty
  | _ => d

/-! ## Timers -/

def idleFired (now : Int) (d : Dest) (id : Nat) : Dest :=
  match d.stream? id with
  | none => d
  | some s =>
    if s.idleTimer.isNone then d
    else
      let d := d.setStream id { s with idleTimer := none }
      if s.writer.writing ∨ s.destroying then d
      else
        match releaseCircuit now d id with
        | (d, true) => d.destroyStream id
        | (d, false) => d

/-- The pool's idle timer of a leg; `onIdle` is `_releaseCircuit`. -/
def grantIdle (now : Int) (d : Dest) (id : Nat) (busy : Bool) : Dest :=
  match d.sendPool.idleFired id busy now with
  | (pool, false) => { d with sendPool := pool }
  | (pool, true) => (releaseCircuit now { d with sendPool := pool } id).1

def returnFired (d : Dest) : Dest :=
  if d.returnTimer then { d with returnTimer := false }.consumed 0 true else d

def retire (d : Dest) : Dest :=
  if d.closed ∨ d.retired then d else closeIfEmpty { d with retired := true }

end Dest

end HyperDht.Private
