import HyperDht.Private.Link
import HyperDht.Private.RouteStream

/-!
# The source's end of a route

A source has a `LogicalRouteStream` on a link of its own, whose other end is the
source's leg at the entry. It asks the entry for circuit credit with DEMAND,
takes a demand back with DEMAND 0, which the entry acknowledges, and hands
unused credit back with RELEASE. A link that closes destroys the stream, and a
stream that has closed destroys the link.
-/

namespace HyperDht.Private

/-- The stream of a source with its link. `faults` records each check that
failed, in order. -/
structure Source where
  link : Link
  stream : RouteStream
  faults : List StreamFault

namespace Source

def new : Source := ⟨.new false, .new, []⟩

def modify (s : Source) (f : RouteStream → RouteStream) : Source := { s with stream := f s.stream }

def fault (s : Source) (f : StreamFault) : Source := { s with faults := s.faults ++ [f] }

/-- `destroy` of the link, with its close handler. -/
def close (s : Source) : Source :=
  if s.link.destroyed then s else { s with link := s.link.destroy, stream := s.stream.destroy }

def sendOut (s : Source) (f : Frame) : Source :=
  if s.link.destroyed then s
  else if s.link.full f then s.close
  else { s with link := s.link.enqueue f }

def sendCredit (s : Source) (f : Body) : Source := s.sendOut ⟨circuitStreamId, f⟩

/-! ## Circuit credit -/

def requestCircuit (s : Source) : Source :=
  if s.stream.wantsCircuit s.link.destroyed = false then s
  else
    let amount := circuitWindow - s.stream.circuitCredit
    (s.modify fun st => { st with circuitRequested := amount }).sendCredit (.demand amount)

/-- The part of `_releaseCircuit` that takes a demand back. -/
def cancelDemand (s : Source) : Source :=
  if s.stream.circuitRequested ≠ 0 ∧ s.stream.circuitCanceling = false then
    (s.modify fun st => { st with circuitCanceling := true }).sendCredit (.demand 0)
  else s

def releaseCircuit (s : Source) : Source :=
  if s.link.destroyed then s
  else
    let s := s.cancelDemand
    if s.stream.circuitCredit = 0 then s
    else
      (s.modify fun st => { st with circuitCredit := 0 }).sendCredit
        (.release s.stream.circuitCredit)

/-- `_returnCircuit`. The check is recorded as a fault; it never fails. -/
def returnCircuit (s : Source) (amount : Nat) (flush : Bool) : Source :=
  if s.link.destroyed then s
  else
    let pending := s.stream.circuitReturnPending + amount
    if pending = 0 then s
    else if flush = false ∧ pending < circuitCreditBatch then
      s.modify fun st => { st with circuitReturnPending := pending, returnTimer := true }
    else
      let s := s.modify fun st => { st with
        circuitReturnPending := 0
        returnTimer := false
        circuitReceiveCredit := st.circuitReceiveCredit + pending }
      if (circuitWindow : Int) < s.stream.circuitReceiveCredit then s.fault .overflow
      else s.sendCredit (.credit pending)

def scheduleIdle (now : Int) (s : Source) : Source :=
  s.modify fun st => st.scheduleIdle s.link.destroyed now

/-! ## Frames -/

def fail (s : Source) (f : StreamFault) : Source := (s.fault f).modify .destroy

def grantCircuit (now : Int) (s : Source) (amount : Nat) : Source :=
  if s.stream.destroying then s
  else if amount < 1 ∨ s.stream.circuitRequested < amount ∨
      circuitWindow < s.stream.circuitCredit + amount then s.fail .grantCircuit
  else
    let s := s.modify fun st => { st with
      circuitRequested := st.circuitRequested - amount
      circuitCredit := st.circuitCredit + amount }
    let s :=
      if s.stream.sendCredit = 0 ∨ s.stream.localEnded then s.releaseCircuit
      else s.modify .wakeWriter
    if s.stream.writer.writing then s else scheduleIdle now s

/-- `cancelCircuit`: the acknowledgement of a demand taken back. -/
def cancelCircuit (s : Source) : Source :=
  if s.stream.destroying then s
  else if s.stream.circuitCanceling = false then s.fail .cancelCircuit
  else
    let s := s.modify fun st => { st with circuitCanceling := false, circuitRequested := 0 }
    let s :=
      if s.stream.writer.writing = false ∨ s.stream.sendCredit = 0 ∨ s.stream.localEnded then
        s.releaseCircuit
      else s.requestCircuit
    s.modify .wakeWriter

/-- `grantStream`. -/
def grantStream (s : Source) (amount : Nat) : Source :=
  if s.stream.destroying then s
  else if amount < 1 ∨ streamWindow < s.stream.sendCredit + amount then s.fail .grantStream
  else
    let s := s.modify fun st => { st with sendCredit := st.sendCredit + amount }
    let s := if s.stream.writer.writing then s.requestCircuit else s
    s.modify .wakeWriter

/-- `receive` of the stream: the cell is charged to the circuit first. -/
def receiveData (s : Source) (chunk : List UInt8) : Source :=
  let s := s.modify .chargeCell
  if s.stream.circuitReceiveCredit < 0 then s.fail .circuitReceiveCredit
  else if s.stream.destroying then s.returnCircuit 1 false
  else if s.stream.remoteEnded then (s.returnCircuit 1 false).fail .ended
  else
    match s.stream.receiveOpen chunk with
    | (st, none) => { s with stream := st }
    | (st, some f) => { s with stream := st }.fault f

def deliver (s : Source) : Body → Source
  | .data chunk => s.receiveData chunk
  | .fin => s.modify .remoteFin
  | .reset => s.modify .remoteReset
  | .credit amount => s.grantStream amount
  | _ => s.fail .unexpected

/-- The payload handler of the link; a destroyed link opens no payload. -/
def receive (now : Int) (s : Source) (payload : Payload) : Source :=
  if s.link.destroyed then s
  else
    match decodeLogical payload with
    | none => s.fail .decode
    | some f =>
      if f.streamId = circuitStreamId then
        match f.body with
        | .credit amount => grantCircuit now s amount
        | .demand amount => if amount = 0 then s.cancelCircuit else s.fail .unexpected
        | _ => s.fail .unexpected
      else if f.streamId ≠ 0 then s.fail .unexpected
      else s.deliver f.body

/-! ## The application's side -/

/-- A throw in `_sendData`; its `finally` clause may set the idle timer. -/
def failWrite (now : Int) (s : Source) : Source :=
  scheduleIdle now (s.modify fun st => { st with writer := .failed })

/-- The inner loop of `_sendData`: `n` cells, after which it awaits them. -/
def sendBatch (now : Int) : Nat → Source → List UInt8 → Source
  | 0, s, rest => s.modify fun st => { st with writer := .draining rest }
  | n + 1, s, rest =>
    let chunk := rest.take maxLogicalPayload
    let s := s.modify fun st => st.countCell chunk.length
    if s.stream.overTotals then failWrite now (s.fault .totals)
    else
      sendBatch now n ((s.modify .spendCell).sendOut ⟨0, .data chunk⟩) (rest.drop maxLogicalPayload)

/-- The loop of `_sendData` from its head to the next await. -/
def resume (now : Int) (s : Source) (rest : List UInt8) : Source :=
  if rest = [] then scheduleIdle now (s.modify fun st => { st with writer := .idle })
  else if s.stream.destroying ∨ s.link.destroyed then failWrite now s
  else
    let s := if s.stream.sendCredit = 0 then s.releaseCircuit else s.requestCircuit
    if s.stream.sendCredit = 0 ∨ s.stream.circuitCredit = 0 then
      if s.stream.destroying ∨ s.link.destroyed then failWrite now s
      else s.modify fun st => { st with writer := .waiting rest }
    else sendBatch now (s.stream.batch rest) s rest

/-- `_write`. The stream machinery calls it for one write at a time, and not on
a destroyed or ended stream. -/
def write (now : Int) (s : Source) (data : List UInt8) : Source :=
  if s.stream.destroying ∨ s.stream.localEnded ∨ s.stream.writer ≠ .idle then s
  else if s.link.destroyed then s.modify fun st => { st with writer := .failed }
  else resume now (s.modify fun st => { st with writer := .woken data, idleTimer := none }) data

/-- The writer goes on after its await: with its credit, or with its batch written. -/
def resumed (now : Int) (s : Source) (ok : Bool) : Source :=
  match s.stream.writer with
  | .woken rest => resume now s rest
  | .draining rest => if ok then resume now s rest else failWrite now s
  | .failed => s.modify .destroy
  | _ => s

def final (s : Source) : Source :=
  if s.stream.destroying ∨ s.stream.localEnded ∨ s.stream.writer ≠ .idle then s
  else ((s.modify fun st => { st with localEnded := true }).releaseCircuit).sendOut ⟨0, .fin⟩

/-- The part of `_read` that returns the credit of the chunk read before. -/
def readBack (s : Source) : Source :=
  if s.stream.delivered then
    let pending := s.stream.streamReturnPending + 1
    let s := s.modify fun st => { st with
      delivered := false
      receivedOutstanding := st.receivedOutstanding - 1
      streamReturnPending := pending }
    let s :=
      if streamCreditBatch ≤ pending then
        (s.modify fun st => { st with
          streamReturnPending := 0
          receiveCredit := st.receiveCredit + pending }).sendOut ⟨0, .credit pending⟩
      else s
    s.returnCircuit 1 false
  else s

/-- `_read`; the stream machinery does not call it on a destroyed stream. -/
def read (s : Source) : Source :=
  if s.stream.destroying then s
  else s.readBack.modify fun st => { st with wantRead := true }.drain

def destroy (s : Source) : Source := s.modify .destroy

/-- `_destroy`, which the stream machinery runs once on a destroyed stream. A
stream without a RESET to wait for closes its link at once. -/
def runDestroy (s : Source) : Source :=
  if s.stream.destroying = false ∨ s.stream.torn then s
  else if (s.stream.localEnded ∧ s.stream.remoteEnded) ∨ s.stream.remoteResetReceived ∨
      s.link.destroyed then
    ((s.modify .tear).returnCircuit s.stream.receivedOutstanding true).close
  else ((s.sendOut ⟨0, .reset⟩).modify .tear).returnCircuit s.stream.receivedOutstanding true

/-- The RESET of a torn stream is written or has failed. -/
def closeStream (s : Source) : Source := if s.stream.torn then s.close else s

def idleFired (s : Source) : Source :=
  if s.stream.idleTimer.isNone then s
  else
    let s := s.modify fun st => { st with idleTimer := none }
    if s.stream.writer.writing ∨ s.stream.destroying then s else s.releaseCircuit

def returnFired (s : Source) : Source :=
  if s.stream.returnTimer then
    (s.modify fun st => { st with returnTimer := false }).returnCircuit 0 true
  else s

end Source

end HyperDht.Private
