import HyperDht.Lib.BufferHeap
import HyperDht.Private.CellCodec
import HyperDht.Private.Logical

/-!
# From control bytes to cells

A raw stream carries control messages first, which `readExactly` reads by their
sizes, and cells after that, which a `CircuitLink` cuts out of the stream. What
`readExactly` has read too much waits in `READ_BUFFERS` until the link starts.

The buffers are those of the code: a chunk is cleared once it is used, what is
left of it is copied before, and cells are opened in place. `allocUnsafe` gives
zeros here; nothing reads a byte of it that was not written.
-/

namespace HyperDht.Private

open BufferHeap

/-- A call of `readExactly` that has not returned. -/
structure ControlRead where
  size : Nat
  output : Nat
  offset : Nat

/-- A raw stream with its reader and its link. `queue` is what has come and was not read;
`known` says that `READ_BUFFERS` has the stream; `returned` are the buffers that `readExactly`
gave back, each with the size asked for; `flowing` says that the link listens to the stream;
`cells` are the cells handed to `_openCell`, with the bytes they had then. -/
structure CellInput where
  heap : List Bytes
  queue : List Nat
  known : Bool
  buffered : Option Nat
  reading : Option ControlRead
  returned : List (Nat × Nat)
  started : Bool
  flowing : Bool
  incoming : Option Nat
  incomingBytes : Nat
  cells : List Bytes
  destroyed : Bool

namespace CellInput

def new : CellInput where
  heap := []
  queue := []
  known := false
  buffered := none
  reading := none
  returned := []
  started := false
  flowing := false
  incoming := none
  incomingBytes := 0
  cells := []
  destroyed := false

/-! ## Control messages -/

/-- `consume`, and the `fill(0)` of the chunk after it. -/
def consume (s : CellInput) (r : ControlRead) (chunk : Nat) : CellInput :=
  let bytes := load s.heap chunk
  let consumed := min (r.size - r.offset) bytes.length
  let heap := copyInto s.heap r.output r.offset (bytes.take consumed)
  let reading := some { r with offset := r.offset + consumed }
  if consumed < bytes.length then
    { s with
      reading
      buffered := some heap.length
      heap := clear (heap ++ [(load heap chunk).drop consumed]) chunk }
  else { s with reading, buffered := none, heap := clear heap chunk }

def readLoop : Nat → CellInput → CellInput
  | 0, s => s
  | fuel + 1, s =>
    match s.reading with
    | none => s
    | some r =>
      if r.offset < r.size then
        match s.buffered, s.queue with
        | some buffered, _ => readLoop fuel ({ s with buffered := none }.consume r buffered)
        | none, chunk :: queue => readLoop fuel ({ s with queue }.consume r chunk)
        | none, [] => s
      else { s with reading := none, returned := s.returned ++ [(r.size, r.output)] }

/-- `onreadable`. A round takes a chunk or what is left of one, and only the last round of a
call leaves some of its chunk. -/
def onreadable (s : CellInput) : CellInput := readLoop (s.queue.length + 2) s

/-- `readExactly`; it is not called after the link has started. -/
def readExactly (s : CellInput) (size : Nat) : CellInput :=
  if s.started ∨ size < 1 then s
  else if s.reading.isSome then { s with known := true }
  else
    onreadable { s with
      known := true
      heap := s.heap ++ [List.replicate size 0]
      reading := some ⟨size, s.heap.length, 0⟩ }

/-! ## Cells -/

/-- `destroy` of the link, as far as its input goes. -/
def destroy (s : CellInput) : CellInput :=
  { s with
    destroyed := true
    flowing := false
    heap := match s.incoming with
      | some incoming => clear s.heap incoming
      | none => s.heap
    incoming := none
    incomingBytes := 0 }

/-- `_openCell`: it reads the cell, and can destroy the link, by an error or otherwise. -/
def openCell (opens : List Bytes → Bytes → Bool) (s : CellInput) (cell : Bytes) : CellInput :=
  let s' := { s with cells := s.cells ++ [cell] }
  if opens s.cells cell then s' else s'.destroy

/-- The loop over the complete cells of a chunk, which gives the offset it ends at. -/
def openLoop (opens : List Bytes → Bytes → Bool) (chunk : Nat) :
    Nat → CellInput → Nat → CellInput × Nat
  | 0, s, offset => (s, offset)
  | fuel + 1, s, offset =>
    if s.destroyed = false ∧ offset + cellSize ≤ (load s.heap chunk).length then
      openLoop opens chunk fuel
        (s.openCell opens (((load s.heap chunk).drop offset).take cellSize)) (offset + cellSize)
    else (s, offset)

/-- The buffer of the link, allocated when it is needed first. -/
def allocate (s : CellInput) : CellInput :=
  if s.incoming.isSome then s
  else { s with incoming := some s.heap.length, heap := s.heap ++ [List.replicate cellSize 0] }

/-- The bytes of a chunk that are no complete cell are kept. -/
def keep (s : CellInput) (chunk offset : Nat) : CellInput :=
  let s := s.allocate
  { s with
    heap := copyInto s.heap (s.incoming.getD 0) 0 ((load s.heap chunk).drop offset)
    incomingBytes := (load s.heap chunk).length - offset }

/-- The rest of `_receive` from an offset of the chunk on. -/
def receiveFrom (opens : List Bytes → Bytes → Bool) (s : CellInput) (chunk offset : Nat) : CellInput :=
  let (s, offset) := openLoop opens chunk (load s.heap chunk).length s offset
  if s.destroyed = false ∧ offset < (load s.heap chunk).length then s.keep chunk offset else s

/-- `_receive`. `allowed` says that the check of the relay's address passes. -/
def receive (opens : List Bytes → Bytes → Bool) (allowed : Bool) (s : CellInput) (chunk : Nat) :
    CellInput :=
  if s.destroyed then s
  else if (load s.heap chunk).length = 0 ∨ allowed = false then s.destroy
  else if s.incomingBytes = 0 then s.receiveFrom opens chunk 0
  else
    let incoming := s.incoming.getD 0
    let length := min (cellSize - s.incomingBytes) (load s.heap chunk).length
    let s := { s with
      heap := copyInto s.heap incoming s.incomingBytes ((load s.heap chunk).take length)
      incomingBytes := s.incomingBytes + length }
    if s.incomingBytes ≠ cellSize then s
    else
      let s := { s with incomingBytes := 0 }.openCell opens (load s.heap incoming)
      { s with heap := clear s.heap incoming }.receiveFrom opens chunk length

/-- What `takeBuffered` gave is the first piece for the link. -/
def receiveBuffered (opens : List Bytes → Bytes → Bool) (allowed : Bool) (s : CellInput) :
    Option Nat → CellInput
  | none => s
  | some buffered =>
    let s := s.receive opens allowed buffered
    { s with heap := clear s.heap buffered }

/-- `start`, with `takeBuffered`, which throws where the stream is not known or still read. -/
def start (opens : List Bytes → Bytes → Bool) (allowed : Bool) (s : CellInput) : CellInput :=
  if s.started ∨ s.destroyed then s
  else if s.known = false ∨ s.reading.isSome then { s with started := true }
  else
    let s := receiveBuffered opens allowed
      { s with started := true, known := false, buffered := none } s.buffered
    if s.destroyed then s else { s with flowing := true }

def ondata (opens : List Bytes → Bytes → Bool) (allowed : Bool) (s : CellInput) : CellInput :=
  if s.flowing = false then s
  else
    match s.queue with
    | [] => s
    | chunk :: queue => { s with queue }.receive opens allowed chunk

def arrive (s : CellInput) (chunk : Bytes) : CellInput :=
  { s with heap := s.heap ++ [chunk], queue := s.queue ++ [s.heap.length] }

end CellInput

inductive InputEvent where
  | arrive (chunk : Bytes)
  | readExactly (size : Nat)
  | readable
  | start (allowed : Bool)
  | data (allowed : Bool)
  deriving DecidableEq, Repr

namespace CellInput

def step (opens : List Bytes → Bytes → Bool) (s : CellInput) : InputEvent → CellInput
  | .arrive chunk => s.arrive chunk
  | .readExactly size => s.readExactly size
  | .readable => s.onreadable
  | .start allowed => s.start opens allowed
  | .data allowed => s.ondata opens allowed

def run (opens : List Bytes → Bytes → Bool) (s : CellInput) (events : List InputEvent) : CellInput :=
  events.foldl (step opens) s

end CellInput

end HyperDht.Private
