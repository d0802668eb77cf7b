import HyperDht.Lib.JsMap
import HyperDht.Lib.LinkedList
import HyperDht.Lib.RoundRobin
import HyperDht.Private.Link
import HyperDht.Private.LinkLedger
import Mathlib.Data.List.Perm.Basic

/-!
# The send scheduler of a link

`send` makes a job and puts it into the queue of its stream; the queues that hold
jobs are threaded through their `next` fields from `sendHead` to `sendTail`, and
the jobs of a queue from its `head` to its `tail`. A microtask takes the jobs in
turn, seals up to 64 of them into a batch and writes it; two batches may be on
their way. A job's promise is settled when its batch is written, or when the link
is destroyed, which may happen while a batch is being filled: sealing a job may
fail, and it runs an observer that may send and destroy.

Jobs and queues are heap objects here, a job and its promise named by the number of
promises before it, and a queue by the number of queues. The model keeps beside the
link the calls of `send` from outside with the promises they returned, how often each
promise was settled, and what was sealed.
-/

namespace HyperDht.Private

open LinkedList

def sendPipelineBatches : Nat := 2

def sendQuantumBytes : Nat := 4 * cellSize

/-- `payload` is `null` once the job is sealed. -/
structure SendJob where
  payload : Option (List UInt8)
  isData : Bool
  settled : Bool
  next : Option Nat
  deriving DecidableEq, Repr

structure SendQueue where
  streamId : Nat
  head : Option Nat
  tail : Option Nat
  deficit : Nat
  next : Option Nat
  deriving DecidableEq, Repr

/-- The sending state of a link. `job` and `queue` are the heap; `queues` counts the
queues made and `returned` the promises. `crashed` says that a `null` or `undefined`
was used as an object, `calls` are the payloads that `send` was called with and the
promises its callers got. -/
structure Scheduler where
  multiplexed : Bool
  job : Nat → SendJob
  queue : Nat → SendQueue
  queues : Nat
  sendQueues : JsMap Nat Nat
  sendHead : Option Nat
  sendTail : Option Nat
  queuedSends : Nat
  batchJobs : Nat → List Nat
  freeBatches : List Nat
  inflight : List Nat
  flushScheduled : Bool
  pendingData : Int
  pendingControl : Int
  pendingSends : Int
  destroyed : Bool
  crashed : Bool
  returned : Nat
  settlements : Nat → Nat
  calls : List (Option (List UInt8) × Nat)
  sealed : List (List UInt8)

namespace Scheduler

/-- Batches are named 0 and 1; `freeBatches` holds the last one pushed first. -/
def new (multiplexed : Bool) : Scheduler :=
  ⟨multiplexed, fun _ => ⟨none, false, false, none⟩, fun _ => ⟨0, none, none, 0, none⟩, 0, .empty,
    none, none, 0, fun _ => [], [1, 0], [], false, 0, 0, 0, false, false, 0, fun _ => 0, [], []⟩

def jobNext (s : Scheduler) (j : Nat) : Option Nat := (s.job j).next

def queueNext (s : Scheduler) (q : Nat) : Option Nat := (s.queue q).next

/-- The jobs a loop from `start` visits. -/
def jobsFrom (s : Scheduler) (start : Option Nat) : List Nat := walk s.jobNext s.returned start

/-- The stream id `send` reads off a payload. -/
def streamIdOf (s : Scheduler) (payload : List UInt8) : Nat :=
  if s.multiplexed ∧ logicalHeaderBytes ≤ payload.length then readU32 payload else 0

/-! ## Settling and teardown -/

def _settleSend (s : Scheduler) (j : Nat) : Scheduler :=
  if (s.job j).settled then s
  else { s with
    job := Function.update s.job j { s.job j with settled := true }
    pendingSends := s.pendingSends - 1
    pendingData := if (s.job j).isData then s.pendingData - 1 else s.pendingData
    pendingControl := if (s.job j).isData then s.pendingControl else s.pendingControl - 1
    settlements := Function.update s.settlements j (s.settlements j + 1) }

def inflightJobs (s : Scheduler) : List Nat := s.inflight.flatMap s.batchJobs

def queuedJobs (s : Scheduler) : List Nat :=
  s.sendQueues.values.flatMap fun q => s.jobsFrom (s.queue q).head

def destroy (s : Scheduler) : Scheduler :=
  if s.destroyed then s
  else
    let s := s.inflightJobs.foldl _settleSend { s with destroyed := true }
    let s := s.queuedJobs.foldl _settleSend s
    { s with
      sendQueues := .empty
      sendHead := none
      sendTail := none
      queuedSends := 0
      freeBatches := [] }

/-- A `TypeError` inside the flush destroys the link. -/
def crash (s : Scheduler) : Scheduler := { s.destroy with crashed := true }

/-! ## Sending -/

def _scheduleSends (s : Scheduler) : Scheduler :=
  if s.destroyed ∨ s.flushScheduled ∨ s.queuedSends = 0 then s else { s with flushScheduled := true }

/-- The queue of a stream, made at the end of the list if there is none. -/
def queueFor (s : Scheduler) (id : Nat) : Scheduler × Nat :=
  match s.sendQueues.get? id with
  | some q => (s, q)
  | none =>
    let q := s.queues
    let s := { s with
      queue := Function.update s.queue q ⟨id, none, none, 0, none⟩
      queues := q + 1
      sendQueues := s.sendQueues.set id q }
    match s.sendTail with
    | some t => ({ s with
        queue := Function.update s.queue t { s.queue t with next := some q }
        sendTail := some q }, q)
    | none => ({ s with sendHead := some q, sendTail := some q }, q)

/-- Put a job at the end of a queue. -/
def pushJob (s : Scheduler) (q j : Nat) : Scheduler :=
  match (s.queue q).tail with
  | some t => { s with
      job := Function.update s.job t { s.job t with next := some j }
      queue := Function.update s.queue q { s.queue q with tail := some j } }
  | none => { s with queue := Function.update s.queue q { s.queue q with head := some j, tail := some j } }

def makeJob (s : Scheduler) (payload : List UInt8) (isData : Bool) : Scheduler :=
  { s with
    job := Function.update s.job s.returned ⟨some payload, isData, false, none⟩
    pendingSends := s.pendingSends + 1
    pendingData := if isData then s.pendingData + 1 else s.pendingData
    pendingControl := if isData then s.pendingControl else s.pendingControl + 1
    returned := s.returned + 1 }

/-- An admitted payload, with the promise of its job. -/
def admitSend (s : Scheduler) (payload : List UInt8) (isData : Bool) : Scheduler × Nat :=
  let j := s.returned
  let (s, q) := (s.makeJob payload isData).queueFor (s.streamIdOf payload)
  let s := s.pushJob q j
  (_scheduleSends { s with queuedSends := s.queuedSends + 1 }, j)

/-- `rejectedWrite`, a promise that is rejected already. -/
def refuse (s : Scheduler) : Scheduler × Nat :=
  ({ s with
      returned := s.returned + 1
      settlements := Function.update s.settlements s.returned (s.settlements s.returned + 1) },
    s.returned)

def isDataPayload (payload : List UInt8) : Bool :=
  logicalHeaderBytes ≤ payload.length && payload[4]? = some 0

/-- `send`, with the promise it returns; the argument is `none` where it is no buffer. -/
def send (s : Scheduler) (payload : Option (List UInt8)) : Scheduler × Nat :=
  match payload with
  | none => s.destroy.refuse
  | some bytes =>
    let isData := isDataPayload bytes
    if maxCellPayload < bytes.length ∨ s.destroyed ∨
        (if isData then (circuitWindow : Int) ≤ s.pendingData
          else (controlReserve : Int) ≤ s.pendingControl) then s.destroy.refuse
    else s.admitSend bytes isData

/-- A call of `send` from outside, with what it was given and what it gave. -/
def call (s : Scheduler) (payload : Option (List UInt8)) : Scheduler :=
  match s.send payload with
  | (s, promise) => { s with calls := s.calls ++ [(payload, promise)] }

/-! ## Flushing -/

/-- A queue whose first job is taken. -/
@[irreducible] def takeJob (queue : SendQueue) (next : Option Nat) : SendQueue :=
  { queue with
    head := next
    deficit := (if queue.deficit = 0 then sendQuantumBytes else queue.deficit) - cellSize }

@[simp] theorem head_takeJob (queue : SendQueue) (next : Option Nat) :
    (takeJob queue next).head = next := by rw [takeJob]

@[simp] theorem tail_takeJob (queue : SendQueue) (next : Option Nat) :
    (takeJob queue next).tail = queue.tail := by rw [takeJob]

@[simp] theorem streamId_takeJob (queue : SendQueue) (next : Option Nat) :
    (takeJob queue next).streamId = queue.streamId := by rw [takeJob]

@[simp] theorem next_takeJob (queue : SendQueue) (next : Option Nat) :
    (takeJob queue next).next = queue.next := by rw [takeJob]

theorem deficit_takeJob (queue : SendQueue) (next : Option Nat) : (takeJob queue next).deficit =
    (if queue.deficit = 0 then sendQuantumBytes else queue.deficit) - cellSize := by rw [takeJob]

/-- `_nextSend`: the job that is next in turn; `none` where it would use `null`. -/
def _nextSend (s : Scheduler) : Option (Nat × Scheduler) :=
  match s.sendHead with
  | none => none
  | some q =>
    match (s.queue q).head with
    | none => none
    | some j =>
      let queue := takeJob (s.queue q) (s.job j).next
      let s := { s with
        job := Function.update s.job j { s.job j with next := none }
        queue := Function.update s.queue q queue
        queuedSends := s.queuedSends - 1 }
      if queue.head = none then
        some (j, { s with
          sendQueues := s.sendQueues.delete queue.streamId
          sendHead := queue.next
          sendTail := if s.sendTail = some q then none else s.sendTail })
      else if queue.deficit = 0 ∧ s.sendTail ≠ some q then
        match s.sendTail with
        | none => none
        | some t =>
          let s := { s with
            sendHead := queue.next
            queue := Function.update s.queue q { queue with next := none } }
          some (j, { s with
            queue := Function.update s.queue t { s.queue t with next := some q }
            sendTail := some q })
      else some (j, s)

inductive ObserverAct where
  | send (payload : Option (List UInt8))
  | destroy
  deriving DecidableEq, Repr

def act (s : Scheduler) : ObserverAct → Scheduler
  | .send payload => s.call payload
  | .destroy => s.destroy

/-- How sealing a job goes: a step before the sealing throws, or the job is sealed and
the observer acts. -/
inductive Sealing where
  | fails
  | seals (acts : List ObserverAct)
  deriving DecidableEq, Repr

/-- A job that was taken is sealed, and its payload dropped. -/
def sealTaken (s : Scheduler) (j : Nat) (o : Sealing) : Scheduler :=
  let s :=
    match o with
    | .fails => s.destroy
    | .seals acts => acts.foldl act { s with sealed := s.sealed ++ (s.job j).payload.toList }
  { s with job := Function.update s.job j { s.job j with payload := none } }

/-- One pass of the inner loop of `_flushSends`. -/
def sealJob (s : Scheduler) (b : Nat) (o : Sealing) : Scheduler :=
  match s._nextSend with
  | none => s.crash
  | some (j, s) =>
    sealTaken { s with batchJobs := Function.update s.batchJobs b (s.batchJobs b ++ [j]) } j o

/-- The inner loop, with the outcomes that are left. -/
def fillBatch (b : Nat) : Nat → List Sealing → Scheduler → Scheduler × List Sealing
  | 0, os, s => (s, os)
  | n + 1, os, s =>
    if s.destroyed then (s, os)
    else fillBatch b n os.tail (s.sealJob b (os.head?.getD (.seals [])))

/-- The outer loop; each round starts a batch, so two rounds are enough. -/
def flushRounds : Nat → List Sealing → Scheduler → Scheduler
  | 0, _, s => s
  | n + 1, os, s =>
    if s.destroyed ∨ sendPipelineBatches ≤ s.inflight.length ∨ s.queuedSends = 0 then s
    else
      match s.freeBatches with
      | [] => s.crash
      | b :: free =>
        let count := min sendBatchCells s.queuedSends
        match fillBatch b count os { s with
          freeBatches := free
          batchJobs := Function.update s.batchJobs b []
          inflight := s.inflight ++ [b] } with
        | (s, os) =>
          if s.destroyed then { s with inflight := s.inflight.erase b } else flushRounds n os s

def _flushSends (s : Scheduler) (os : List Sealing) : Scheduler := flushRounds sendPipelineBatches os s

/-- The microtask of `_scheduleSends`. -/
def microtask (s : Scheduler) (os : List Sealing) : Scheduler :=
  if s.flushScheduled then _flushSends { s with flushScheduled := false } os else s

/-- `_finishBatch` of a batch whose write is on its way. -/
def _finishBatch (s : Scheduler) (b : Nat) (error : Bool) : Scheduler :=
  if b ∈ s.inflight then
    let s := { s with inflight := s.inflight.erase b }
    let s := if error then s.destroy else s
    let s := (s.batchJobs b).foldl _settleSend s
    let s := { s with batchJobs := Function.update s.batchJobs b [] }
    let s := if s.destroyed then s else { s with freeBatches := b :: s.freeBatches }
    s._scheduleSends
  else s

inductive SendEvent where
  | send (payload : Option (List UInt8))
  | microtask (outcomes : List Sealing)
  | finish (b : Nat) (error : Bool)
  | destroy
  deriving DecidableEq, Repr

def step (s : Scheduler) : SendEvent → Scheduler
  | .send payload => s.call payload
  | .microtask os => s.microtask os
  | .finish b error => s._finishBatch b error
  | .destroy => s.destroy

def run (s : Scheduler) (evs : List SendEvent) : Scheduler := evs.foldl step s

/-! ## What a scheduler must keep -/

/-- The payloads of a stream that `send` was called with, and those that were sealed. -/
def sentOf (s : Scheduler) (id : Nat) : List (List UInt8) :=
  (s.calls.filterMap Prod.fst).filter fun p => s.streamIdOf p = id

def sealedOf (s : Scheduler) (id : Nat) : List (List UInt8) :=
  s.sealed.filter fun p => s.streamIdOf p = id

def queuedOf (s : Scheduler) (id : Nat) : List (List UInt8) :=
  match s.sendQueues.get? id with
  | none => []
  | some q => (s.jobsFrom (s.queue q).head).filterMap fun j => (s.job j).payload

def promises (s : Scheduler) : List Nat := s.calls.map Prod.snd

/-- The condition under which the outer loop ends. -/
def Idle (s : Scheduler) : Prop :=
  s.destroyed = true ∨ sendPipelineBatches ≤ s.inflight.length ∨ s.queuedSends = 0

/-- A correct multi-queue. -/
structure Correct (s : Scheduler) : Prop where
  running : s.crashed = false
  list : ∃ refs, Path s.queueNext s.sendHead refs ∧ s.sendTail = refs.getLast? ∧ refs.Nodup ∧
    s.sendQueues.values.Perm refs ∧ ∀ q ∈ refs, (s.queue q).head ≠ none ∧
      s.sendQueues.get? (s.queue q).streamId = some q
  queued : s.queuedSends = s.queuedJobs.length
  pending : s.pendingSends = s.pendingData + s.pendingControl ∧
    s.pendingSends = (s.queuedJobs.length + (s.inflightJobs.filter fun j => !(s.job j).settled).length : Nat)
  batches : s.destroyed = false → s.freeBatches.length + s.inflight.length = sendPipelineBatches
  inOrder : ∀ id, s.sealedOf id <+: s.sentOf id
  lossless : s.destroyed = false → ∀ id, s.sentOf id = s.sealedOf id ++ s.queuedOf id
  distinct : s.promises.Nodup
  once : ∀ p, s.settlements p ≤ 1
  allSettled : s.destroyed = true → ∀ p ∈ s.promises, s.settlements p = 1
  flushed : ∀ os, (s.microtask os).Idle
  written : s.destroyed = false → ∀ b ∈ s.inflight, ∀ j ∈ s.batchJobs b, ∀ error,
    (s._finishBatch b error).settlements j = 1

end Scheduler

end HyperDht.Private
