import HyperDht.Lib.JsMap
import Mathlib.Algebra.Order.Ring.Int
import Mathlib.Tactic.Common

/-!
# Counters

The counters of the route cells: `SenderCounter` hands out each counter once,
and `OrderedReceiver` turns authenticated cells that arrive out of order into
one delivery per counter, in order. A receiver buffers what is ahead of `next`
inside its window, and fails closed when a gap lasts too long, the window is
exceeded or its clock misbehaves. The clock is a callback: it may throw, give
any value, and call the receiver again, where only `destroy` has an effect.
-/

namespace HyperDht.Private

def maxCounter : Nat := 2 ^ 64 - 1
def maxWindow : Nat := 4096
def maxBufferedPayload : Nat := 1146

inductive CounterError where
  | exhausted
  | invalid
  | gap
  | replay
  deriving DecidableEq, Repr

/-- `counterValue`: a value between zero and `maximum`. -/
def counterValue (value : Int) (maximum : Nat) : Except CounterError Nat :=
  if value < 0 ∨ (maximum : Int) < value then .error .invalid else .ok value.toNat

theorem counterValue_ok {value : Int} {maximum n : Nat} (h : counterValue value maximum = .ok n) :
    (n : Int) = value ∧ n ≤ maximum := by
  unfold counterValue at h
  split at h
  · cases h
  · cases h
    omega

/-- `isTime`: a safe integer that is not negative. -/
def isTime (value : Int) : Bool := 0 ≤ value && value ≤ 2 ^ 53 - 1

/-! ## The sender -/

structure SenderCounter where
  value : Nat
  maximum : Nat
  closed : Bool
  deriving DecidableEq, Repr

namespace SenderCounter

/-- The constructor; an absent option has its default. -/
def new (initial maximum : Option Int) : Except CounterError SenderCounter := do
  let maximum ← counterValue (maximum.getD maxCounter) maxCounter
  let value ← counterValue (initial.getD 0) maximum
  return ⟨value, maximum, false⟩

def next (s : SenderCounter) : SenderCounter × Except CounterError Nat :=
  if s.closed then (s, .error .exhausted)
  else if s.value = s.maximum then ({ s with closed := true }, .ok s.value)
  else ({ s with value := s.value + 1 }, .ok s.value)

def destroy (s : SenderCounter) : SenderCounter := { s with value := 0, closed := true }

end SenderCounter

/-! ## The receiver -/

/-- What a caller may push as a payload. -/
inductive Chunk where
  | buffer (bytes : List UInt8)
  | text (s : String)
  | other (tag : Nat)
  deriving DecidableEq, Repr

/-- What a call of the clock gives. -/
inductive Reading where
  | throws
  | value (v : Int)
  | notNumber
  deriving DecidableEq, Repr

/-- A call the clock makes on its receiver. -/
inductive Reentry where
  | pushAuthenticated
  | expire
  | destroy
  deriving DecidableEq, Repr

/-- One call of the clock: the calls it makes on the receiver, and its result. -/
structure Clock where
  calls : List Reentry
  result : Reading
  deriving DecidableEq, Repr

/-- The receiver. `now` says that the clock is still held; `destroyNow` drops it. -/
structure OrderedReceiver where
  window : Nat
  gapTimeout : Nat
  now : Bool
  next : Nat
  maximum : Nat
  buffer : JsMap Nat Chunk
  gapStartedAt : Option Nat
  lastObservedAt : Option Nat
  closed : Bool
  mutating : Bool
  destroyRequested : Bool

/-- The options of the constructor; an absent `initial` or `maximum` has its default. -/
structure ReceiverOptions where
  window : Int
  gapTimeout : Int
  initial : Option Int
  maximum : Option Int
  deriving DecidableEq, Repr

namespace OrderedReceiver

def new (options : ReceiverOptions) : Except CounterError OrderedReceiver :=
  if options.window < 1 ∨ (maxWindow : Int) < options.window then .error .invalid
  else if isTime options.gapTimeout = false then .error .invalid
  else do
    let maximum ← counterValue (options.maximum.getD maxCounter) maxCounter
    let next ← counterValue (options.initial.getD 0) maximum
    return ⟨options.window.toNat, options.gapTimeout.toNat, true, next, maximum, .empty, none,
      none, false, false, false⟩

def clearBuffered (r : OrderedReceiver) : OrderedReceiver :=
  { r with buffer := .empty, gapStartedAt := none, lastObservedAt := none }

/-- `#failGap` and `#failInvalid`: drop the buffer, close and throw. -/
def failWith {α : Type} (r : OrderedReceiver) (e : CounterError) :
    OrderedReceiver × Except CounterError α :=
  ({ r.clearBuffered with closed := true }, .error e)

def closeExhausted (r : OrderedReceiver) : OrderedReceiver :=
  { r.clearBuffered with next := r.maximum, closed := true }

def destroyNow (r : OrderedReceiver) : OrderedReceiver :=
  { r.clearBuffered with destroyRequested := false, next := 0, closed := true, now := false }

/-- `destroy`, deferred while another method runs. -/
def destroy (r : OrderedReceiver) : OrderedReceiver :=
  if r.mutating then { r with destroyRequested := true, closed := true } else r.destroyNow

/-- A call made by the clock. The receiver is mutating, so a push or an expiry
throws before it changes anything. -/
def reenter (r : OrderedReceiver) : Reentry → OrderedReceiver
  | .pushAuthenticated | .expire => r
  | .destroy => r.destroy

def failClock {α : Type} (r : OrderedReceiver) : OrderedReceiver × Except CounterError α :=
  if r.gapStartedAt.isSome then r.failWith .invalid else (r, .error .invalid)

def clockValue (r : OrderedReceiver) : Reading → OrderedReceiver × Except CounterError Nat
  | .value v => if isTime v then (r, .ok v.toNat) else r.failClock
  | _ => r.failClock

def readNow (r : OrderedReceiver) (clock : Clock) : OrderedReceiver × Except CounterError Nat :=
  let r := clock.calls.foldl reenter r
  if clock.result = .throws then r.failClock
  else if r.destroyRequested ∨ r.closed then (r, .error .exhausted)
  else r.clockValue clock.result

def expireAt (r : OrderedReceiver) (current : Nat) : OrderedReceiver × Except CounterError Bool :=
  match r.gapStartedAt with
  | none => (r, .ok false)
  | some started =>
    if current < r.lastObservedAt.getD 0 then r.failWith .invalid
    else
      let r := { r with lastObservedAt := some current }
      if current - started < r.gapTimeout then (r, .ok false) else r.failWith .gap

/-- The buffered copy of a payload, or `none` where `#copyForBuffer` fails. -/
def copyForBuffer : Chunk → Option Chunk
  | .buffer bytes => if maxBufferedPayload < bytes.length then none else some (.buffer bytes)
  | .text s => if maxBufferedPayload < s.utf8ByteSize then none else some (.text s)
  | .other _ => none

def assertNoDeferredDestroy (r : OrderedReceiver) (delivered : List Chunk) :
    OrderedReceiver × Except CounterError (List Chunk) :=
  if r.destroyRequested then (r, .error .exhausted) else (r, .ok delivered)

/-- The branch of a push ahead of `next`. -/
def hold (r : OrderedReceiver) (counter : Nat) (payload : Chunk) (clock : Clock) :
    OrderedReceiver × Except CounterError (List Chunk) :=
  if r.window ≤ counter - r.next then r.failWith .gap
  else if r.gapTimeout = 0 then r.failWith .gap
  else
    match r.gapStartedAt with
    | some _ =>
      match copyForBuffer payload with
      | none => r.failWith .invalid
      | some owned =>
        assertNoDeferredDestroy { r with buffer := r.buffer.set counter owned } []
    | none =>
      match r.readNow clock with
      | (r, .error e) => (r, .error e)
      | (r, .ok startedAt) =>
        match copyForBuffer payload with
        | none => r.failWith .invalid
        | some owned =>
          assertNoDeferredDestroy { r with
            buffer := r.buffer.set counter owned
            gapStartedAt := some startedAt
            lastObservedAt := some startedAt } []

/-- The loop that takes the buffered payloads from `next` on. -/
def drain : Nat → OrderedReceiver → List Chunk → OrderedReceiver × List Chunk
  | 0, r, delivered => (r, delivered)
  | n + 1, r, delivered =>
    match r.buffer.get? r.next with
    | none => (r, delivered)
    | some buffered =>
      let r := { r with buffer := r.buffer.delete r.next }
      if r.next = r.maximum then (r.closeExhausted, delivered ++ [buffered])
      else drain n { r with next := r.next + 1 } (delivered ++ [buffered])

/-- The branch of a push at `next`. -/
def deliver (r : OrderedReceiver) (payload : Chunk) : OrderedReceiver × List Chunk :=
  if r.next = r.maximum then (r.closeExhausted, [payload])
  else
    let (r, delivered) := drain r.buffer.size { r with next := r.next + 1 } [payload]
    if r.buffer.size = 0 then ({ r with gapStartedAt := none, lastObservedAt := none }, delivered)
    else (r, delivered)

def checkGap (r : OrderedReceiver) (clock : Clock) : OrderedReceiver × Except CounterError Bool :=
  if r.gapStartedAt.isSome then
    match r.readNow clock with
    | (r, .error e) => (r, .error e)
    | (r, .ok current) => r.expireAt current
  else (r, .ok false)

/-- `#pushAuthenticated`. -/
def push (r : OrderedReceiver) (counter : Nat) (payload : Chunk) (clock : Clock) :
    OrderedReceiver × Except CounterError (List Chunk) :=
  if r.closed then (r, .error .exhausted)
  else
    match r.checkGap clock with
    | (r, .error e) => (r, .error e)
    | (r, .ok _) =>
      if counter < r.next ∨ r.buffer.has counter then (r, .error .replay)
      else if r.next < counter then r.hold counter payload clock
      else
        let (r, delivered) := r.deliver payload
        r.assertNoDeferredDestroy delivered

/-- `#mutate`: a nested call throws, and a destroy asked for meanwhile runs last. -/
def mutate {α : Type} (r : OrderedReceiver)
    (operation : OrderedReceiver → OrderedReceiver × Except CounterError α) :
    OrderedReceiver × Except CounterError α :=
  if r.mutating then (r, .error .invalid)
  else
    let (r, result) := operation { r with mutating := true }
    let r := { r with mutating := false }
    (if r.destroyRequested then r.destroyNow else r, result)

def pushAuthenticated (r : OrderedReceiver) (counter : Int) (payload : Chunk) (clock : Clock) :
    OrderedReceiver × Except CounterError (List Chunk) :=
  r.mutate fun r =>
    match counterValue counter r.maximum with
    | .error e => (r, .error e)
    | .ok counter => r.push counter payload clock

/-- `expire`, at a given time or at the clock's. -/
def expire (r : OrderedReceiver) (at? : Option Reading) (clock : Clock) :
    OrderedReceiver × Except CounterError Bool :=
  r.mutate fun r =>
    if r.closed then (r, .error .exhausted)
    else
      match (match at? with | none => r.readNow clock | some at' => r.clockValue at') with
      | (r, .error e) => (r, .error e)
      | (r, .ok current) => r.expireAt current

end OrderedReceiver

end HyperDht.Private
