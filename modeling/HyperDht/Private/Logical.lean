import Mathlib.Data.Nat.Notation

/-!
# Logical frames

The frames the parties of a private route exchange inside route cells, and the
constants of the flow control. A frame is a stream id with a flag and the
flag's data (`Body`); `validLogicalPayload` is the check that both
`encodeLogical` and `decodeLogical` make. The stream id `circuitStreamId`
addresses the circuit itself.
-/

namespace HyperDht.Private

def cellSize : Nat := 1200
def maxCellPayload : Nat := 1146
def maxControlCells : Nat := 16
def logicalHeaderBytes : Nat := 5
def maxLogicalPayload : Nat := maxCellPayload - logicalHeaderBytes
def circuitStreamId : Nat := 0xffffffff
def streamWindow : Nat := 512
def circuitWindow : Nat := 2048
def streamCreditBatch : Nat := 128
def circuitCreditBatch : Nat := 32
def controlReserve : Nat := 256
def sendBatchCells : Nat := 64
def creditIdleMs : Int := 50
def creditGrantIdleMs : Int := 6000
def demandProgress : Nat := 32
def maxRouteStreams : Nat := 64
def maxSplicedRouteStreams : Nat := 256
def maxStreamBytes : Nat := 32 * 1024 * 1024 * 1024
def maxStreamDataFrames : Nat := (maxStreamBytes + (maxLogicalPayload - 1)) / maxLogicalPayload
def maxStreamCells : Nat := 2 * maxStreamDataFrames + 4 * maxControlCells

/-- The flag of a logical frame with the data that goes with it. -/
inductive Body where
  | data (chunk : List UInt8)
  | openStream
  | fin
  | reset
  | credit (amount : Nat)
  | demand (amount : Nat)
  | release (amount : Nat)
  | spliceOpen (udxId : Nat)
  | spliceReady (udxId : Nat)
  deriving DecidableEq, Repr

structure Frame where
  streamId : Nat
  body : Body
  deriving DecidableEq, Repr

namespace Body

def isData : Body → Bool
  | data _ => true
  | _ => false

/-- `LOGICAL_OPEN` or `LOGICAL_SPLICE_OPEN`: the frames that enqueue a stream. -/
def isOpen : Body → Bool
  | openStream | spliceOpen _ => true
  | _ => false

end Body

namespace Frame

def cells (f : Frame) : Nat := if f.body.isData then 1 else 0

/-- The number of DATA cells of one stream. -/
def dataOf (id : Nat) (f : Frame) : Nat := if f.streamId = id then f.cells else 0

/-- The credit a frame carries for a stream, or for the circuit. -/
def creditOf (id : Nat) (f : Frame) : Nat :=
  match f.body with
  | .credit n => if f.streamId = id then n else 0
  | _ => 0

/-- The number of splices a frame asks for. -/
def splices (f : Frame) : Nat :=
  match f.body with
  | .spliceOpen _ => 1
  | _ => 0

theorem dataOf_of_ne {f : Frame} {id : Nat} (h : f.streamId ≠ id) : f.dataOf id = 0 := if_neg h

theorem creditOf_of_ne {f : Frame} {id : Nat} (h : f.streamId ≠ id) : f.creditOf id = 0 := by
  unfold creditOf
  split
  · exact if_neg h
  · rfl

@[simp] theorem creditOf_self (id n : Nat) : (⟨id, .credit n⟩ : Frame).creditOf id = n := if_pos rfl

/-- The circuit credit a frame gives back unused. -/
def releaseOf (f : Frame) : Nat :=
  match f.body with
  | .release n => n
  | _ => 0

end Frame

/-- The largest credit a frame on `streamId` may carry. -/
def creditMaximum (streamId : Nat) : Nat :=
  if streamId = circuitStreamId then circuitWindow else streamWindow

/-- The check of `encodeLogical` and `decodeLogical` on a frame's data. -/
def validLogicalPayload (streamId : Nat) : Body → Bool
  | .data chunk => chunk.length ≤ maxLogicalPayload && streamId != circuitStreamId
  | .openStream | .fin | .reset => streamId != circuitStreamId
  | .credit amount => amount ≤ creditMaximum streamId && amount != 0
  | .demand amount => streamId == circuitStreamId && amount ≤ circuitWindow
  | .release amount => streamId == circuitStreamId && amount ≤ circuitWindow && amount != 0
  | .spliceOpen udxId | .spliceReady udxId =>
    streamId != circuitStreamId && udxId ≤ 0xffffffff && udxId != 0

/-- The payload of an opened route cell: a frame, or bytes that are none (too
short, an unknown flag, data of the wrong length for the flag). -/
inductive Payload where
  | frame (f : Frame)
  | garbage
  deriving DecidableEq, Repr

/-- `decodeLogical`: `none` where the source throws. -/
def decodeLogical : Payload → Option Frame
  | .frame f =>
    if f.streamId ≤ 0xffffffff ∧ validLogicalPayload f.streamId f.body = true then some f else none
  | .garbage => none

theorem decodeLogical_eq_some {p : Payload} {f : Frame} (h : decodeLogical p = some f) :
    p = .frame f ∧ f.streamId ≤ 0xffffffff ∧ validLogicalPayload f.streamId f.body = true := by
  cases p with
  | garbage => simp [decodeLogical] at h
  | frame g =>
    simp only [decodeLogical] at h
    split at h
    · next hv => cases h; exact ⟨rfl, hv⟩
    · cases h

end HyperDht.Private
