import HyperDht.Private.CreditPool

/-!
# Logical route streams

The state of a `LogicalRouteStream` and those of its methods that touch only the
stream itself. The methods that send or that ask for circuit credit differ
between the two ends: a source sends on a link of its own (`Source`), a stream
of a destination shares the link and the credit pool of its circuit
(`Destination`).

`_sendData` is an async function; `Writer` says at which of its awaits it is.
`torn` says that the stream machinery has run `_destroy`, which happens some
time after `destroy`.
-/

namespace HyperDht.Private

/-- Where `_sendData` is, with the bytes it has still to send. A `woken` writer
has its credit and is not resumed yet; a `failed` one has thrown, and the write
callback is still to run. -/
inductive Writer where
  | idle
  | waiting (rest : List UInt8)
  | woken (rest : List UInt8)
  | draining (rest : List UInt8)
  | failed
  deriving DecidableEq, Repr

def Writer.writing : Writer → Bool
  | idle | failed => false
  | waiting _ | woken _ | draining _ => true

/-- The checks of a stream: of its frames, of the credit it is given, and of
the pool methods it calls. -/
inductive StreamFault where
  | decode
  | unexpected
  | circuitReceiveCredit
  | ended
  | totals
  | window
  | grantStream
  | grantCircuit
  | cancelCircuit
  | overflow
  | pool (f : PoolFault)
  deriving DecidableEq, Repr

/-- The state of a stream. `idleTimer` holds the time at which the timer was set. -/
structure RouteStream where
  remoteEnded : Bool
  localEnded : Bool
  sentBytes : Nat
  receivedBytes : Nat
  sentFrames : Nat
  receivedFrames : Nat
  sendCredit : Nat
  receiveCredit : Int
  streamReturnPending : Nat
  circuitCredit : Nat
  circuitRequested : Nat
  circuitCanceling : Bool
  circuitReceiveCredit : Int
  circuitReturnPending : Nat
  writer : Writer
  idleTimer : Option Int
  returnTimer : Bool
  queue : List (List UInt8)
  receivedOutstanding : Nat
  delivered : Bool
  wantRead : Bool
  remoteResetReceived : Bool
  destroying : Bool
  torn : Bool

namespace RouteStream

def new : RouteStream where
  remoteEnded := false
  localEnded := false
  sentBytes := 0
  receivedBytes := 0
  sentFrames := 0
  receivedFrames := 0
  sendCredit := streamWindow
  receiveCredit := streamWindow
  streamReturnPending := 0
  circuitCredit := 0
  circuitRequested := 0
  circuitCanceling := false
  circuitReceiveCredit := circuitWindow
  circuitReturnPending := 0
  writer := .idle
  idleTimer := none
  returnTimer := false
  queue := []
  receivedOutstanding := 0
  delivered := false
  wantRead := false
  remoteResetReceived := false
  destroying := false
  torn := false

def wakeWriter (s : RouteStream) : RouteStream :=
  match s.writer with
  | .waiting rest =>
    if s.sendCredit = 0 ∨ s.circuitCredit = 0 then s else { s with writer := .woken rest }
  | _ => s

def scheduleIdle (s : RouteStream) (linkDestroyed : Bool) (now : Int) : RouteStream :=
  if s.destroying ∨ linkDestroyed ∨ s.idleTimer.isSome ∨
      (s.circuitCredit = 0 ∧ s.circuitRequested = 0) then s
  else { s with idleTimer := some now }

def destroy (s : RouteStream) : RouteStream :=
  if s.destroying then s
  else { s with
    destroying := true
    idleTimer := none
    returnTimer := false
    writer := match s.writer with
      | .waiting _ => .failed
      | w => w }

/-- What `_destroy` does to the stream itself. -/
def tear (s : RouteStream) : RouteStream :=
  { s with queue := [], receivedOutstanding := 0, torn := true }

def drain (s : RouteStream) : RouteStream :=
  if s.destroying then s
  else
    let s :=
      match s.wantRead, s.queue with
      | true, _ :: queue => { s with queue, wantRead := false, delivered := true }
      | _, _ => s
    if s.remoteEnded ∧ s.queue = [] ∧ s.delivered = false then { s with wantRead := false } else s

def remoteFin (s : RouteStream) : RouteStream :=
  if s.remoteEnded then s else { s with remoteEnded := true }.drain

def remoteReset (s : RouteStream) : RouteStream :=
  if s.destroying then s else { s with remoteResetReceived := true }.destroy

def wantsCircuit (s : RouteStream) (linkDestroyed : Bool) : Bool :=
  !(s.destroying || s.localEnded || linkDestroyed || s.sendCredit == 0 || s.circuitCanceling ||
    s.circuitRequested != 0 || circuitWindow / 2 < s.circuitCredit)

/-- The number of cells `_sendData` sends next. -/
def batch (s : RouteStream) (rest : List UInt8) : Nat :=
  min sendBatchCells (min s.sendCredit (min s.circuitCredit
    ((rest.length + (maxLogicalPayload - 1)) / maxLogicalPayload)))

/-- A cell counted by `_sendData` before it is sent. -/
def countCell (s : RouteStream) (length : Nat) : RouteStream :=
  { s with sentBytes := s.sentBytes + length, sentFrames := s.sentFrames + 1 }

/-- More bytes or cells are sent than a stream may send. -/
def overTotals (s : RouteStream) : Bool :=
  maxStreamBytes < s.sentBytes || maxStreamDataFrames < s.sentFrames

def spendCell (s : RouteStream) : RouteStream :=
  { s with sendCredit := s.sendCredit - 1, circuitCredit := s.circuitCredit - 1 }

/-- The charge of a cell to the circuit credit of a stream with a link of its own. -/
def chargeCell (s : RouteStream) : RouteStream :=
  { s with circuitReceiveCredit := s.circuitReceiveCredit - 1 }

/-- `receive` of a stream that is neither destroyed nor ended, with the limit
the frame is over, if any. -/
def receiveOpen (s : RouteStream) (chunk : List UInt8) : RouteStream × Option StreamFault :=
  let s := { s with
    receivedBytes := s.receivedBytes + chunk.length
    receivedFrames := s.receivedFrames + 1
    receivedOutstanding := s.receivedOutstanding + 1
    receiveCredit := s.receiveCredit - 1 }
  if maxStreamBytes < s.receivedBytes ∨ maxStreamDataFrames < s.receivedFrames then
    (s.destroy, some .totals)
  else if s.receiveCredit < 0 ∨ streamWindow ≤ s.queue.length then (s.destroy, some .window)
  else ({ s with queue := s.queue ++ [chunk] }.drain, none)

end RouteStream

end HyperDht.Private
