import HyperDht.Private.CreditPool
import HyperDht.Private.Link

/-!
# The entry circuit

`EntryCircuit` joins the legs of several sources to one link to the destination.
Each source has a record under its stream id; frames of a source go out on the
shared link under that id, and frames of the destination go to the leg of their
id. A send that finds its link full destroys the link at once: a leg then runs
its close handler (`closeLeg`), and the shared link closes the entry
(`destroy`). The legs' circuit credit is shared through `forwardPool`, whose
`onGrant` sends on a leg and so may close it inside the pool's loop (`closeIn`).

`faults` records the check at which a frame was refused, in order. The links of
all legs ever activated stay in `links`, since what is on their wire is still
read by the other end.
-/

namespace HyperDht.Private

/-- The two raw streams of a splice, by their udx ids. -/
structure Splice where
  up : Nat
  down : Nat
  active : Bool
  deriving DecidableEq, Repr

/-- The entry's record of one source. `attached` says that the leg's handlers
are installed. -/
structure Record where
  attached : Bool
  splice : Option Splice
  sourceEnded : Bool
  destinationEnded : Bool
  resetReceived : Bool
  sentBytes : Nat
  sentFrames : Nat
  receivedBytes : Nat
  receivedFrames : Nat
  sendCredit : Nat
  receiveCredit : Nat
  reverseInFlight : Nat
  deriving DecidableEq, Repr

inductive EntryFault where
  | decode
  | foreignId
  | unexpected
  | ended
  | totals
  | splice
  | reverseInFlight
  | sendCredit
  | receiveCredit
  | reverseCredit
  | demand (f : PoolFault)
  | release (f : PoolFault)
  | sent (f : PoolFault)
  | returned (f : PoolFault)
  | reverseOverflow
  deriving DecidableEq, Repr

structure Entry where
  spliced : Bool
  link : Link
  links : JsMap Nat Link
  sources : JsMap Nat Record
  nextStreamId : Nat
  closed : Bool
  retired : Bool
  reverseReceiveCredit : Nat
  reverseReturnPending : Nat
  returnTimer : Bool
  forwardPool : Pool Nat
  faults : List EntryFault

def Record.new : Record :=
  ⟨false, none, false, false, false, 0, 0, 0, 0, streamWindow, streamWindow, 0⟩

namespace Entry

def new (spliced : Bool) : Entry :=
  ⟨spliced, .new true, .empty, .empty, 2, false, false, circuitWindow, 0, false, .new, []⟩

/-- The number of sources `activate` admits. -/
def limit (e : Entry) : Nat := if e.spliced then maxSplicedRouteStreams else maxRouteStreams

def setRecord (e : Entry) (id : Nat) (record : Record) : Entry :=
  { e with sources := e.sources.set id record }

def fault (e : Entry) (f : EntryFault) : Entry := { e with faults := e.faults ++ [f] }

/-- `destroy`. The close handlers of the legs find the entry closed. -/
def destroy (e : Entry) : Entry :=
  if e.closed then e
  else { e with
    closed := true
    returnTimer := false
    forwardPool := e.forwardPool.destroy
    sources := .empty
    links := e.links.mapValues Link.destroy
    link := e.link.destroy }

/-- `sendLogical` on the shared link; its close handler destroys the entry. -/
def sendOut (e : Entry) (f : Frame) : Entry :=
  if e.link.destroyed then e
  else if e.link.full f then e.destroy
  else { e with link := e.link.enqueue f }

/-- `_returnReverse`. The check is recorded as a fault; it never fails. -/
def returnReverse (e : Entry) (amount : Nat) (flush : Bool) : Entry :=
  if e.closed then e
  else
    let pending := e.reverseReturnPending + amount
    if pending = 0 then e
    else if flush = false ∧ pending < circuitCreditBatch then
      { e with reverseReturnPending := pending, returnTimer := true }
    else
      let e := { e with
        reverseReturnPending := 0
        returnTimer := false
        reverseReceiveCredit := e.reverseReceiveCredit + pending }
      if circuitWindow < e.reverseReceiveCredit then e.fault .reverseOverflow
      else e.sendOut ⟨circuitStreamId, .credit pending⟩

/-- The first part of a leg's close handler, up to the distribution in
`forwardPool.remove`; the flag says whether that is reached. -/
def detach (e : Entry) (id : Nat) (l : Link) : Entry × Bool :=
  ({ e with
    links := e.links.set id l.destroy
    sources := e.sources.delete id
    forwardPool := (e.forwardPool.remove id).1 }, (e.forwardPool.remove id).2)

/-- The rest of the close handler. -/
def afterClose (e : Entry) (id : Nat) (record : Record) : Entry :=
  let e := e.returnReverse record.reverseInFlight true
  if e.closed ∨ record.resetReceived ∨ (record.sourceEnded ∧ record.destinationEnded) then e
  else e.sendOut ⟨id, .reset⟩

/-- `destroy` of a leg's link, with the distribution that follows `remove`. -/
def closeWith (distribute : Entry → Entry) (e : Entry) (id : Nat) : Entry :=
  match e.links.get? id with
  | none => e
  | some l =>
    if l.destroyed then e
    else
      match e.sources.get? id with
      | none => { e with links := e.links.set id l.destroy }
      | some record =>
        if record.attached = false then { e with links := e.links.set id l.destroy }
        else
          match e.detach id l with
          | (e, true) => (distribute e).afterClose id record
          | (e, false) => e.afterClose id record

def sendWith (distribute : Entry → Entry) (e : Entry) (id : Nat) (f : Frame) : Entry :=
  match e.links.get? id with
  | none => e
  | some l =>
    if l.destroyed then e
    else if l.full f then closeWith distribute e id
    else { e with links := e.links.set id (l.enqueue f) }

/-- A close inside the pool's loop, where `_distribute` returns at once. -/
def closeIn (e : Entry) (id : Nat) : Entry := closeWith (fun e => e) e id

/-- The pool of an entry: a grant is sent to the source as circuit CREDIT. -/
def host : Host Nat Entry where
  pool := forwardPool
  setPool e pool := { e with forwardPool := pool }
  onGrant id amount e :=
    (sendWith (fun e => e) e id ⟨circuitStreamId, .credit amount⟩, false)
  pool_setPool _ _ := rfl

/-- `_distribute` of the entry's pool; the loop needs at most one round for each
cell wanted. -/
def distribute (now : Int) (e : Entry) : Entry :=
  (host.distribute ((e.forwardPool.legs.total fun _ leg => leg.wanted) + 1) now e).1

def closeLeg (now : Int) (e : Entry) (id : Nat) : Entry := closeWith (distribute now) e id

def sendLeg (now : Int) (e : Entry) (id : Nat) (f : Frame) : Entry :=
  sendWith (distribute now) e id f

def failLeg (now : Int) (e : Entry) (id : Nat) (f : EntryFault) : Entry :=
  closeLeg now (e.fault f) id

/-! ## Frames of a source -/

/-- Circuit control frames of a source. -/
def circuitControl (now : Int) (e : Entry) (id : Nat) (record : Record) : Body → Entry
  | .credit amount =>
    if record.reverseInFlight < amount then failLeg now e id .reverseInFlight
    else
      (e.setRecord id { record with reverseInFlight := record.reverseInFlight - amount })
        |>.returnReverse amount false
  | .demand amount =>
    if amount ≠ 0 ∧ record.sourceEnded then failLeg now e id .ended
    else
      match e.forwardPool.demand id amount true now with
      | .error f => failLeg now e id (.demand f)
      | .ok (pool, true) => distribute now { e with forwardPool := pool }
      | .ok (pool, false) =>
        sendLeg now { e with forwardPool := pool } id ⟨circuitStreamId, .demand 0⟩
  | .release amount =>
    match e.forwardPool.release id amount with
    | .error f => failLeg now e id (.release f)
    | .ok pool => distribute now { e with forwardPool := pool }
  | _ => failLeg now e id .unexpected

/-- The part of `_fromSource` that every other frame takes: what the flag does
to the record, and the frame on the shared link. -/
def forward (now : Int) (e : Entry) (id : Nat) (record : Record) : Body → Entry
  | .data chunk =>
    if record.sourceEnded then failLeg now e id .ended
    else if record.sendCredit = 0 then failLeg now e id .sendCredit
    else if maxStreamBytes < record.sentBytes + chunk.length ∨
        maxStreamDataFrames < record.sentFrames + 1 then failLeg now e id .totals
    else
      match e.forwardPool.sent id 1 now with
      | .error f => failLeg now e id (.sent f)
      | .ok pool =>
        ({ e with forwardPool := pool }.setRecord id { record with
          sentBytes := record.sentBytes + chunk.length
          sentFrames := record.sentFrames + 1
          sendCredit := record.sendCredit - 1 }).sendOut ⟨id, .data chunk⟩
  | .credit amount =>
    if streamWindow < record.receiveCredit + amount then failLeg now e id .receiveCredit
    else
      (e.setRecord id { record with receiveCredit := record.receiveCredit + amount }).sendOut
        ⟨id, .credit amount⟩
  | .fin => (e.setRecord id { record with sourceEnded := true }).sendOut ⟨id, .fin⟩
  | .reset =>
    (e.setRecord id { record with resetReceived := true, splice := none }).sendOut ⟨id, .reset⟩
  | body => e.sendOut ⟨id, body⟩

/-- `_fromSource`: a payload opened on the leg of `id`. The raw streams of a new
splice have the ids `udx`; `none` where creating them throws. -/
def fromSource (now : Int) (e : Entry) (id : Nat) (payload : Payload) (udx : Option (Nat × Nat)) :
    Entry :=
  match e.sources.get? id with
  | none => e
  | some record =>
    if record.attached = false then e
    else
      match decodeLogical payload with
      | none => failLeg now e id .decode
      | some f =>
        if f.streamId = circuitStreamId then circuitControl now e id record f.body
        else if f.streamId ≠ 0 then failLeg now e id .foreignId
        else
          match f.body with
          | .openStream =>
            if e.spliced = false ∨ record.splice.isSome then failLeg now e id .splice
            else e.sendOut ⟨id, .openStream⟩
          | .spliceOpen _ =>
            if record.splice.isSome then failLeg now e id .splice
            else
              match udx with
              | none => failLeg now e id .splice
              | some (up, down) =>
                (e.setRecord id { record with splice := some ⟨up, down, false⟩ }).sendOut
                  ⟨id, .spliceOpen down⟩
          | body => forward now e id record body

/-! ## Frames of the destination -/

/-- The catch clause of `_receive` for a registered source: a charge that is not
yet moved to the record is given back before the leg closes. -/
def failCharged (now : Int) (e : Entry) (id : Nat) (charged : Bool) (f : EntryFault) : Entry :=
  failLeg now (if charged then e.returnReverse 1 false else e) id f

/-- The part of `_receive` for a frame of a registered source. -/
def deliver (now : Int) (e : Entry) (id : Nat) (record : Record) (body : Body) : Entry :=
  let charged := body.isData
  match body with
  | .openStream | .spliceOpen _ => failCharged now e id charged .unexpected
  | .spliceReady _ =>
    match record.splice with
    | none => failCharged now e id charged .splice
    | some splice =>
      if splice.active then failCharged now e id charged .splice
      else
        sendLeg now (e.setRecord id { record with splice := some { splice with active := true } })
          id ⟨0, .spliceReady splice.up⟩
  | .data chunk =>
    let record := { record with reverseInFlight := record.reverseInFlight + 1 }
    let charged := false
    let e := e.setRecord id record
    if record.destinationEnded then failCharged now e id charged .ended
    else if record.receiveCredit = 0 then failCharged now e id charged .receiveCredit
    else if maxStreamBytes < record.receivedBytes + chunk.length ∨
        maxStreamDataFrames < record.receivedFrames + 1 then failCharged now e id charged .totals
    else
      sendLeg now (e.setRecord id { record with
        receivedBytes := record.receivedBytes + chunk.length
        receivedFrames := record.receivedFrames + 1
        receiveCredit := record.receiveCredit - 1 }) id ⟨0, .data chunk⟩
  | .credit amount =>
    if streamWindow < record.sendCredit + amount then failCharged now e id charged .sendCredit
    else
      sendLeg now (e.setRecord id { record with sendCredit := record.sendCredit + amount })
        id ⟨0, .credit amount⟩
  | .fin => sendLeg now (e.setRecord id { record with destinationEnded := true }) id ⟨0, .fin⟩
  | .reset =>
    sendLeg now (e.setRecord id { record with resetReceived := true, splice := none })
      id ⟨0, .reset⟩
  | body => sendLeg now e id ⟨0, body⟩

/-- `_receive` once a DATA frame is charged. -/
def receiveCharged (now : Int) (e : Entry) (f : Frame) : Entry :=
  match e.sources.get? f.streamId with
  | some record => deliver now e f.streamId record f.body
  | none =>
    if 0 < f.streamId ∧ f.streamId % 2 = 0 ∧ f.streamId < e.nextStreamId then
      if f.body.isData then e.returnReverse 1 false else e
    else if f.body = .fin ∨ f.body = .reset then e
    else (e.fault .unexpected).destroy

/-- `_receive`: a payload opened on the shared link. -/
def receive (now : Int) (e : Entry) (payload : Payload) : Entry :=
  if e.closed then e
  else
    match decodeLogical payload with
    | none => (e.fault .decode).destroy
    | some f =>
      if f.streamId = circuitStreamId then
        match f.body with
        | .credit amount =>
          match e.forwardPool.returned amount with
          | .error fault => (e.fault (.returned fault)).destroy
          | .ok pool => distribute now { e with forwardPool := pool }
        | _ => (e.fault .unexpected).destroy
      else if f.body.isData then
        if e.reverseReceiveCredit = 0 then (e.fault .reverseCredit).destroy
        else receiveCharged now { e with reverseReceiveCredit := e.reverseReceiveCredit - 1 } f
      else receiveCharged now e f

/-! ## Activation -/

def refuses (e : Entry) : Bool :=
  e.closed || e.retired || e.limit ≤ e.sources.size || circuitStreamId ≤ e.nextStreamId

/-- `activate` up to the registration of the record. -/
def register (e : Entry) : Entry :=
  { e with
    nextStreamId := e.nextStreamId + 2
    links := e.links.set e.nextStreamId (.new false)
    sources := e.sources.set e.nextStreamId .new }

/-- `activate`: the new stream id, or `none` where it throws. `readable` says
that `start` finds the read buffer of the leg's stream. -/
def activate (e : Entry) (readable : Bool) : Entry × Option Nat :=
  if e.refuses then (e, none)
  else
    match e.forwardPool.add e.nextStreamId with
    | .error _ => (e.register, none)
    | .ok pool =>
      let e' := { e.register with forwardPool := pool }
        |>.setRecord e.nextStreamId { Record.new with attached := true }
      let e' := if e.spliced then e' else e'.sendOut ⟨e.nextStreamId, .openStream⟩
      if e'.closed ∨ readable then (e', some e.nextStreamId) else (e', none)

end Entry

end HyperDht.Private
