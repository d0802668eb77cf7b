import HyperDht.Lib.Runs
import HyperDht.Private.DestRun
import HyperDht.Private.SharedRoute

/-!
# Opens on their way to the destination

The entry hands out stream ids at activation, and a stream is opened when its source speaks
(in the standard profile at once). The destination admits an OPEN or SPLICE_OPEN only above
the last stream id it saw and takes any other one for a failure of the circuit. Here the
entry, the guard with its two links and the destination circuit are put together: every
event of the entry but the progress of its links, every event of the destination but its
frames, and the cells that go from one to the other. What comes back to the entry may be any
frame at any time.
-/

namespace HyperDht.Private

/-! ## The parties -/

namespace Entry

/-- What a source says of its own stream. -/
def spoken (payload : Payload) : Option Body :=
  match decodeLogical payload with
  | none => none
  | some f => if f.streamId = 0 then some f.body else none

/-- The frames of a source that `_fromSource` takes for an OPEN. -/
def takesOpen (e : Entry) (r : Record) (udx : Option (Nat × Nat)) : Body → Bool
  | .openStream => e.spliced && r.splice.isNone
  | .spliceOpen _ => r.splice.isNone && udx.isSome
  | _ => false

/-- The stream whose OPEN or SPLICE_OPEN the entry sends on the shared link. -/
def opens (e : Entry) : EntryEvent → Option Nat
  | .activate _ =>
    match e.forwardPool.add e.nextStreamId with
    | .error _ => none
    | .ok _ => if e.spliced || e.refuses then none else some e.nextStreamId
  | .fromSource _ id payload udx =>
    match e.sources.get? id, spoken payload with
    | some r, some body => if r.attached && e.takesOpen r udx body then some id else none
    | _, _ => none
  | _ => none

/-- A source speaks of its stream first with its one OPEN or SPLICE_OPEN. -/
def honest (opened : List Nat) : EntryEvent → Bool
  | .fromSource _ id payload _ =>
    match spoken payload with
    | none => true
    | some body => if body.isOpen then decide (id ∉ opened) else decide (id ∈ opened)
  | _ => true

end Entry

/-- The progress of the two links; `_createSpliceStream` gives ids other than zero. -/
def RouteEvent.onTheWay : RouteEvent → Bool
  | .source _ | .destinationReads => false
  | .guardReads raw => raw.all fun r => decide (r.2 ≤ 0xffffffff ∧ r.2 ≠ 0)
  | _ => true

def EntryEvent.isLink : EntryEvent → Bool
  | .link _ => true
  | _ => false

structure OpenRoute where
  way : SharedRoute
  dest : Dest

/-- The events of the parties. Raw streams and the application's side of a connection are
set up without a throw. -/
inductive OpenEvent where
  | entry (ev : {ev : EntryEvent // ev.isLink = false})
  | way (ev : {ev : RouteEvent // ev.onTheWay = true})
  | reads (now : Int) (a : {a : Acceptance // a.accepts = true ∧ a.splice.isSome = true})
  | destination (ev : {ev : DestEvent // ev.isReceive = false})

/-- The frames that the circuit answers with one of its own: a SPLICE_OPEN, and an OPEN that
`_open` refuses. -/
def Dest.replies (d : Dest) : Body → Bool
  | .spliceOpen _ => true
  | .openStream => d.retired || decide (maxRouteStreams ≤ d.activeStreams)
  | _ => false

namespace OpenRoute

def new (spliced : Bool) (memory : MemoryTree) (others : Nat) : OpenRoute :=
  ⟨.new spliced memory, .new others⟩

/-- The destination's end of the link charges the next cell and hands its frame on. -/
def reads (s : OpenRoute) (now : Int) (a : Acceptance) : OpenRoute :=
  match s.way.guard.link.take with
  | none => s
  | some (f, _) => {
      way := s.way.destinationReads
      dest :=
        if s.way.destinationReads.destination.destroyed then s.dest.destroy
        else s.dest.receive now (.frame f) a }

def step (s : OpenRoute) : OpenEvent → OpenRoute
  | .entry ev => { s with way := { s.way with
      entry := s.way.entry.step ev.val
      opened := s.way.opened ++ (s.way.entry.opens ev.val).toList } }
  | .way ev => { s with way := s.way.step ev.val }
  | .reads now a => s.reads now a.val
  | .destination ev => { s with dest := s.dest.step ev.val }

/-- The sources keep to the protocol. -/
def Honest (s : OpenRoute) : OpenEvent → Prop
  | .entry ev => Entry.honest s.way.opened ev.val = true
  | _ => True

/-- A stream is opened above those before it, and where an open cell reaches the open circuit,
the link has a cell left to receive it and room for its answer, if it has one. -/
def Orderly (s : OpenRoute) : OpenEvent → Prop
  | .entry ev => ∀ id ∈ s.way.entry.opens ev.val, ∀ o ∈ s.way.opened, o < id
  | .reads _ _ => ∀ next ∈ s.way.guard.link.take, next.1.body.isOpen = true →
      s.dest.closed = false → s.way.destination.destroyed = false ∧
        s.way.destination.remaining .receive ≠ 0 ∧ (s.dest.replies next.1.body = true →
          s.dest.link.full ⟨next.1.streamId, .reset⟩ = false)
  | _ => True

instance (s : OpenRoute) : ∀ ev, Decidable (s.Honest ev)
  | .entry ev => inferInstanceAs (Decidable (Entry.honest s.way.opened ev.val = true))
  | .way _ | .reads _ _ | .destination _ => inferInstanceAs (Decidable True)

instance (s : OpenRoute) : ∀ ev, Decidable (s.Orderly ev)
  | .entry ev =>
    inferInstanceAs (Decidable (∀ id ∈ s.way.entry.opens ev.val, ∀ o ∈ s.way.opened, o < id))
  | .reads _ _ => inferInstanceAs (Decidable (∀ next ∈ s.way.guard.link.take,
      next.1.body.isOpen = true → s.dest.closed = false →
        s.way.destination.destroyed = false ∧ s.way.destination.remaining .receive ≠ 0 ∧
          (s.dest.replies next.1.body = true →
            s.dest.link.full ⟨next.1.streamId, .reset⟩ = false)))
  | .way _ | .destination _ => inferInstanceAs (Decidable True)

/-- The stream is open, or it alone is answered with RESET. -/
structure Answers (id : Nat) (d d' : Dest) : Prop where
  live : d'.closed = false
  last : d'.lastStreamId = id
  answer : (∃ st, d.streams.get? id = none ∧ d'.streams = d.streams.set id st ∧
      (d'.link = d.link ∨ ∃ udxId, d'.link = d.link.enqueue ⟨id, .spliceReady udxId⟩)) ∨
    d'.streams = d.streams ∧ d'.link = d.link.enqueue ⟨id, .reset⟩

/-- An OPEN or SPLICE_OPEN that reaches the open circuit is answered. -/
def Answered (s : OpenRoute) : OpenEvent → Prop
  | .reads now a => ∀ next ∈ s.way.guard.link.take, next.1.body.isOpen = true →
      s.dest.closed = false → Answers next.1.streamId s.dest (s.reads now a.val).dest
  | _ => True

end OpenRoute

end HyperDht.Private
