import HyperDht.Lib.RingBuffer
import HyperDht.Private.Logical

/-!
# The receive side of a logical stream

What a `LogicalRouteStream` keeps of the cells it receives until its reader takes
them: a ring of chunks, of which one at a time is pushed to the reader.

The base class calls `_read` only after the reader has taken the chunk pushed
before, and not after the end was pushed (`pull`). What the methods call outside
the stream can succeed, throw, or destroy the stream before it returns
(`CallOutcome`), and `destroy` and `_destroy` may come at any time.
-/

namespace HyperDht.Private

/-- What a call that leaves the stream does to it. -/
inductive CallOutcome where
  | returns
  | destroys
  | throws
  deriving DecidableEq, Repr

/-- What a method finds outside the stream: the link, and the outcomes of the calls that
send stream credit and circuit credit. -/
structure Around where
  linkDestroyed : Bool
  streamReturn : CallOutcome
  circuitReturn : CallOutcome
  deriving DecidableEq, Repr

/-- The state of the receive side. `circuit` says whether the stream belongs to a circuit.
The last four fields are the base class: the chunks pushed, how many of them the reader has
asked for and has taken, and how often the end was pushed. -/
structure ReceiveSide where
  circuit : Bool
  remoteEnded : Bool
  receivedBytes : Nat
  receivedFrames : Nat
  receiveCredit : Int
  streamReturnPending : Int
  circuitReceiveCredit : Int
  circuitReturnPending : Int
  returnTimer : Bool
  queuedBytes : Int
  queue : List (Option (List UInt8))
  queueHead : Nat
  queueLength : Nat
  receivedOutstanding : Int
  delivered : Bool
  wantRead : Bool
  remoteResetReceived : Bool
  destroying : Bool
  pushed : List (List UInt8)
  asked : Nat
  taken : Nat
  ends : Nat

namespace ReceiveSide

def new (circuit : Bool) : ReceiveSide where
  circuit := circuit
  remoteEnded := false
  receivedBytes := 0
  receivedFrames := 0
  receiveCredit := streamWindow
  streamReturnPending := 0
  circuitReceiveCredit := circuitWindow
  circuitReturnPending := 0
  returnTimer := false
  queuedBytes := 0
  queue := List.replicate streamWindow none
  queueHead := 0
  queueLength := 0
  receivedOutstanding := 0
  delivered := false
  wantRead := false
  remoteResetReceived := false
  destroying := false
  pushed := []
  asked := 0
  taken := 0
  ends := 0

def destroy (s : ReceiveSide) : ReceiveSide :=
  if s.destroying then s else { s with destroying := true, returnTimer := false }

/-- The stream after a call, and whether the call throws. -/
def after (s : ReceiveSide) : CallOutcome → ReceiveSide × Bool
  | .returns => (s, false)
  | .destroys => (s.destroy, false)
  | .throws => (s, true)

/-- `_returnCircuit`, and whether it throws. -/
def returnCircuit (s : ReceiveSide) (around : Around) (amount : Int) (flush : Bool) :
    ReceiveSide × Bool :=
  if s.circuit then s.after around.circuitReturn
  else if around.linkDestroyed then (s, false)
  else
    let s := { s with circuitReturnPending := s.circuitReturnPending + amount }
    if s.circuitReturnPending = 0 then (s, false)
    else if flush = false ∧ s.circuitReturnPending < circuitCreditBatch then
      ({ s with returnTimer := true }, false)
    else
      let returned := s.circuitReturnPending
      let s := { s with
        returnTimer := false
        circuitReturnPending := 0
        circuitReceiveCredit := s.circuitReceiveCredit + returned }
      if (circuitWindow : Int) < s.circuitReceiveCredit then (s, true)
      else s.after around.circuitReturn

/-- The first part of `_drain`: a chunk for a reader that waits for one. -/
def drainChunk (s : ReceiveSide) : ReceiveSide :=
  if s.wantRead ∧ 0 < s.queueLength then
    match (s.queue[s.queueHead]?).join with
    | none => s
    | some data => { s with
        queue := s.queue.set s.queueHead none
        queueHead := (s.queueHead + 1) % streamWindow
        queueLength := s.queueLength - 1
        queuedBytes := s.queuedBytes - data.length
        wantRead := false
        delivered := true
        pushed := s.pushed ++ [data] }
  else s

def drainEnd (s : ReceiveSide) : ReceiveSide :=
  if s.remoteEnded ∧ s.queueLength = 0 ∧ s.delivered = false then
    { s with wantRead := false, ends := s.ends + 1 }
  else s

def drain (s : ReceiveSide) : ReceiveSide := if s.destroying then s else s.drainChunk.drainEnd

/-- `receive`. An error is caught by the caller, which destroys the stream. -/
def receive (s : ReceiveSide) (around : Around) (data : List UInt8) : ReceiveSide :=
  let s := if s.circuit then s else { s with circuitReceiveCredit := s.circuitReceiveCredit - 1 }
  if s.circuit = false ∧ s.circuitReceiveCredit < 0 then s.destroy
  else if s.destroying ∨ s.remoteEnded then (s.returnCircuit around 1 false).1.destroy
  else
    let s := { s with
      receivedBytes := s.receivedBytes + data.length
      receivedFrames := s.receivedFrames + 1
      receivedOutstanding := s.receivedOutstanding + 1
      receiveCredit := s.receiveCredit - 1 }
    if maxStreamBytes < s.receivedBytes ∨ maxStreamDataFrames < s.receivedFrames ∨
        s.receiveCredit < 0 ∨ streamWindow ≤ s.queueLength then s.destroy
    else
      drain { s with
        queuedBytes := s.queuedBytes + data.length
        queue := s.queue.set ((s.queueHead + s.queueLength) % streamWindow) (some data)
        queueLength := s.queueLength + 1 }

def remoteFin (s : ReceiveSide) : ReceiveSide :=
  if s.remoteEnded then s else { s with remoteEnded := true }.drain

def remoteReset (s : ReceiveSide) : ReceiveSide :=
  if s.destroying then s else { s with remoteResetReceived := true }.destroy

/-- The stream credit of a chunk that was read, in batches. -/
def returnStream (s : ReceiveSide) (around : Around) : ReceiveSide × Bool :=
  if (streamCreditBatch : Int) ≤ s.streamReturnPending then
    { s with
      streamReturnPending := 0
      receiveCredit := s.receiveCredit + s.streamReturnPending }.after around.streamReturn
  else (s, false)

/-- The part of `_read` about the chunk delivered before, and whether it throws. -/
def readBack (s : ReceiveSide) (around : Around) : ReceiveSide × Bool :=
  if s.delivered then
    match returnStream { s with
        delivered := false
        receivedOutstanding := s.receivedOutstanding - 1
        streamReturnPending := s.streamReturnPending + 1 } around with
    | (s, true) => (s, true)
    | (s, false) => s.returnCircuit around 1 false
  else (s, false)

/-- `_read`. Its callback destroys the stream after an error. -/
def read (s : ReceiveSide) (around : Around) : ReceiveSide :=
  match s.readBack around with
  | (s, true) => s.destroy
  | (s, false) => { s with wantRead := true }.drain

/-- What `_destroy` does to the receive side. -/
def tear (s : ReceiveSide) (around : Around) : ReceiveSide :=
  if s.destroying then
    ({ s with
      queue := []
      queueLength := 0
      queuedBytes := 0
      receivedOutstanding := 0 }.returnCircuit around s.receivedOutstanding true).1
  else s

def returnFired (s : ReceiveSide) (around : Around) : ReceiveSide :=
  if s.returnTimer then ({ s with returnTimer := false }.returnCircuit around 0 true).1 else s

/-- The base class asks for one chunk more than were pushed. -/
def pull (s : ReceiveSide) (around : Around) : ReceiveSide :=
  if s.taken = s.pushed.length ∧ s.ends = 0 then
    { s with asked := s.pushed.length + 1 }.read around
  else s

def take (s : ReceiveSide) : ReceiveSide :=
  if s.taken < s.pushed.length then { s with taken := s.taken + 1 } else s

def ring (s : ReceiveSide) : RingBuffer (List UInt8) := ⟨s.queue, s.queueHead, s.queueLength⟩

end ReceiveSide

inductive ReceiveEvent where
  | receive (data : List UInt8) (around : Around)
  | remoteFin
  | remoteReset
  | pull (around : Around)
  | take
  | destroy
  | tear (around : Around)
  | returnFired (around : Around)
  deriving DecidableEq, Repr

namespace ReceiveSide

def step (s : ReceiveSide) : ReceiveEvent → ReceiveSide
  | .receive data around => s.receive around data
  | .remoteFin => s.remoteFin
  | .remoteReset => s.remoteReset
  | .pull around => s.pull around
  | .take => s.take
  | .destroy => s.destroy
  | .tear around => s.tear around
  | .returnFired around => s.returnFired around

def run (s : ReceiveSide) (events : List ReceiveEvent) : ReceiveSide := events.foldl step s

def received (events : List ReceiveEvent) : List (List UInt8) :=
  events.filterMap fun
    | .receive data _ => some data
    | _ => none

def beforeFin : List ReceiveEvent → List (List UInt8)
  | [] => []
  | .remoteFin :: _ => []
  | .receive data _ :: events => data :: beforeFin events
  | _ :: events => beforeFin events

end ReceiveSide

end HyperDht.Private
