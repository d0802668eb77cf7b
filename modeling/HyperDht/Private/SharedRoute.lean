import HyperDht.Private.SharedFunding

/-!
# Abandoned activations and the shared link

Sources activate at an entry, open their stream (in the standard profile the
entry does so for them) and close their leg, at any moment. What the entry sends
for them on the shared link is charged four times on its way to the destination:
by the entry, twice by the guard that hands it on, and by the destination.

A source that closes its leg before it opened its stream costs a RESET that no
OPEN has paid for. The links survive as long as the sources open in the order of
their stream ids and the RESETs of unopened streams stay within the sixteen
control cells, but one, and what earlier streams have paid beyond their own OPEN
and RESET (`orderly_not_exhausted`). Seventeen abandoned activations destroy the
link (`abandoned_exhausts`).
-/

namespace HyperDht.Private

/-! ## The parties -/

/-- What sources do: the leg's `activate`, OPEN or SPLICE_OPEN as the first frame
of the source, and the end of its leg. -/
inductive SourceCall where
  | activate (readable : Bool)
  | opens (id : Nat) (now : Int)
  | spliceOpens (id udxId up down : Nat) (now : Int)
  | closes (id : Nat) (now : Int)
  deriving DecidableEq, Repr

namespace Entry

def serve (e : Entry) : SourceCall → Entry
  | .activate readable => (e.activate readable).1
  | .opens id now => fromSource now e id (.frame ⟨0, .openStream⟩) none
  | .spliceOpens id udxId up down now =>
    fromSource now e id (.frame ⟨0, .spliceOpen udxId⟩) (some (up, down))
  | .closes id now => closeLeg now e id

/-- A registered source with its handlers, and no splice. -/
def idle (e : Entry) (id : Nat) : Bool :=
  match e.sources.get? id with
  | none => false
  | some r => r.attached && r.splice.isNone

/-- The stream a call makes the entry open on the shared link. -/
def opening (e : Entry) : SourceCall → Option Nat
  | .activate _ =>
    match e.forwardPool.add e.nextStreamId with
    | .error _ => none
    | .ok _ => if e.spliced || e.refuses then none else some e.nextStreamId
  | .opens id _ => if e.spliced && e.idle id then some id else none
  | .spliceOpens id udxId _ _ _ =>
    if e.idle id && decide (udxId ≠ 0 ∧ udxId ≤ 0xffffffff) then some id else none
  | .closes _ _ => none

/-- Does a call end the leg of a source whose stream is not in `opened`? -/
def abandons (e : Entry) (opened : List Nat) : SourceCall → Bool
  | .closes id _ => (e.sources.get? id).any (fun r => r.attached) && decide (id ∉ opened)
  | .spliceOpens id udxId _ _ _ =>
    (e.sources.get? id).any (fun r => r.attached) && decide (id ∉ opened) &&
      decide (¬(udxId ≠ 0 ∧ udxId ≤ 0xffffffff))
  | _ => false

end Entry

/-- The guard of a destination: the ledgers of its link to the entry, and its link
to the destination with the ledgers of that. -/
structure Guard where
  entrySide : LinkLedgers
  destinationSide : LinkLedgers
  link : Link
  splices : JsMap Nat Splice
  closed : Bool

namespace Guard

def close (g : Guard) : Guard :=
  { g with closed := true, splices := .empty, link := g.link.destroy }

/-- `forward` of `transformBridge`: the splices after it and the frame it sends, or
`none` where it throws. `raw` are the raw streams of a new splice. -/
def forward (splices : JsMap Nat Splice) (raw : Option (Nat × Nat)) (f : Frame) :
    Option (JsMap Nat Splice × Frame) :=
  match f.body with
  | .spliceOpen _ =>
    if splices.has f.streamId ∨ maxSplicedRouteStreams ≤ splices.size then none
    else
      match raw with
      | none => none
      | some (up, down) => some (splices.set f.streamId ⟨up, down, false⟩, ⟨f.streamId, .spliceOpen down⟩)
  | .spliceReady _ =>
    match splices.get? f.streamId with
    | none => none
    | some pair =>
      if pair.active then none
      else some (splices.set f.streamId { pair with active := true }, ⟨f.streamId, .spliceReady pair.up⟩)
  | .reset => some (splices.delete f.streamId, f)
  | _ => some (splices, f)

def receive (g : Guard) (raw : Option (Nat × Nat)) (f : Frame) : Guard :=
  let g := { g with entrySide := (g.entrySide.step .cell).step (.payload (encodeLogical f)) }
  if g.entrySide.destroyed then g.close
  else
    match forward g.splices raw f with
    | none => g.close
    | some (splices, f') =>
      if g.link.full f' then g.close else { g with splices, link := g.link.enqueue f' }

def sealNext (g : Guard) : Guard :=
  match g.link.sends.next sendQuantum with
  | none => g
  | some (_, f, _) =>
    let g := { g with destinationSide := g.destinationSide.step (.sealed (encodeLogical f)) }
    if g.destinationSide.destroyed then g.close else { g with link := g.link.nextSend }

end Guard

/-- The parties of a shared link. `opened` are the streams the entry has opened on
it, and `abandoned` counts the legs that closed before that. -/
structure SharedRoute where
  entry : Entry
  entryLedgers : LinkLedgers
  guard : Guard
  destination : LinkLedgers
  opened : List Nat
  abandoned : Nat

/-- What happens on the way: a source's call, the progress of the two links, or
their end for another reason. -/
inductive RouteEvent where
  | source (call : SourceCall)
  | entrySeals
  | entrySettles (data : Bool)
  | entryCloses
  | guardReads (raw : Option (Nat × Nat))
  | guardSeals
  | guardSettles (data : Bool)
  | guardSpliceEnds (id : Nat)
  | guardCloses
  | destinationReads
  deriving DecidableEq, Repr

namespace SharedRoute

def new (spliced : Bool) (memory : MemoryTree) : SharedRoute :=
  let ledgers := LinkLedgers.new maxRouteStreams memory
  ⟨.new spliced, ledgers, ⟨ledgers, ledgers, .new true, .empty, false⟩, ledgers, [], 0⟩

def sealNext (s : SharedRoute) : SharedRoute :=
  match s.entry.link.sends.next sendQuantum with
  | none => s
  | some (_, f, _) =>
    let s := { s with entryLedgers := s.entryLedgers.step (.sealed (encodeLogical f)) }
    if s.entryLedgers.destroyed then { s with entry := s.entry.destroy }
    else { s with entry := { s.entry with link := s.entry.link.nextSend } }

def guardReads (s : SharedRoute) (raw : Option (Nat × Nat)) : SharedRoute :=
  if s.guard.closed then s
  else
    match s.entry.link.take with
    | none => s
    | some (f, link) => { s with entry := { s.entry with link }, guard := s.guard.receive raw f }

def destinationReads (s : SharedRoute) : SharedRoute :=
  match s.guard.link.take with
  | none => s
  | some (f, link) => { s with
      guard := { s.guard with link }
      destination := (s.destination.step .cell).step (.payload (encodeLogical f)) }

def step (s : SharedRoute) : RouteEvent → SharedRoute
  | .source call => { s with
      entry := s.entry.serve call
      opened := s.opened ++ (s.entry.opening call).toList
      abandoned := s.abandoned + if s.entry.abandons s.opened call then 1 else 0 }
  | .entrySeals => s.sealNext
  | .entrySettles data =>
    { s with entry := { s.entry with link := s.entry.link.settle data } }
  | .entryCloses => { s with entry := s.entry.destroy }
  | .guardReads raw => s.guardReads raw
  | .guardSeals => { s with guard := s.guard.sealNext }
  | .guardSettles data => { s with guard := { s.guard with link := s.guard.link.settle data } }
  | .guardSpliceEnds id => { s with guard := { s.guard with splices := s.guard.splices.delete id } }
  | .guardCloses => { s with guard := s.guard.close }
  | .destinationReads => s.destinationReads

def run (s : SharedRoute) (events : List RouteEvent) : SharedRoute := events.foldl step s

/-- A charge has failed somewhere. -/
def exhausted (s : SharedRoute) : Bool :=
  s.entryLedgers.destroyed || s.guard.entrySide.destroyed || s.guard.destinationSide.destroyed ||
    s.destination.destroyed

/-- A stream is opened once and above those before it, and a leg closes before its
stream is opened only while cells are left that no open stream may need. The ledgers
alone would bear some OPENs out of order, as they bear some of those RESETs. -/
def orderly (s : SharedRoute) : RouteEvent → Bool
  | .source call =>
    (s.entry.opening call).all (fun id => s.opened.all (· < id)) &&
      (!s.entry.abandons s.opened call || decide (s.abandoned < spare s.opened.length + 15))
  | _ => true

def Orderly (s : SharedRoute) : List RouteEvent → Prop
  | [] => True
  | ev :: evs => s.orderly ev = true ∧ (s.step ev).Orderly evs

end SharedRoute

/-! ## An entry that carries no data -/

namespace Entry

/-- An open entry that has sent `fs` on the shared link: no credit is asked for or
owed, and a registered source has sent nothing but its OPEN. -/
structure Calm (e : Entry) (fs : List Frame) : Prop where
  isOpen : e.Open
  pending : e.forwardPool.pending = []
  distributing : e.forwardPool.distributing = false
  nothingReturned : e.reverseReturnPending = 0
  multiplexed : e.link.multiplexed = true
  next : e.nextStreamId ≤ 2 ^ 32
  records : ∀ id r, e.sources.get? id = some r →
    r.reverseInFlight = 0 ∧ r.resetReceived = false ∧ r.sourceEnded = false
  opens : ∀ id r, e.sources.get? id = some r → ∀ f ∈ fs, f.streamId = id → f.body.isOpen = true
  used : ∀ f ∈ fs, f.streamId < e.nextStreamId

/-- The streams that must have been opened: those with a splice, and in the standard
profile all. -/
def Known (e : Entry) (ids : List Nat) : Prop :=
  ∀ id r, e.sources.get? id = some r →
    r.splice.isSome = true ∨ e.spliced = false ∧ r.attached = true → id ∈ ids

theorem calm_new (spliced : Bool) : (Entry.new spliced).Calm [] := by
  have hkept := kept_new spliced
  have ho : (Entry.new spliced).Open := by
    rcases hkept with hg | ⟨ho, -⟩
    · exact absurd hg.closed Bool.false_ne_true
    · exact ho
  have hnone : ∀ id r, (Entry.new spliced).sources.get? id = some r → False := by
    intro id r hr
    cases hr
  exact ⟨ho, rfl, rfl, rfl, rfl, show 2 ≤ 2 ^ 32 by decide, fun id r hr => (hnone id r hr).elim,
    fun id r hr => (hnone id r hr).elim, fun f hf => (List.not_mem_nil hf).elim⟩

theorem distribute_idle {e : Entry} (hp : e.forwardPool.pending = [])
    (hd : e.forwardPool.distributing = false) (now : Int) : distribute now e = e := by
  unfold distribute Host.distribute
  split
  · rfl
  · have hrounds : ∀ (fuel : Nat) (s : Entry), s.forwardPool.pending = [] →
        host.rounds now fuel s = (s, false) := by
      intro fuel s hs
      cases fuel with
      | zero => rfl
      | succ n =>
        unfold Host.rounds
        rw [if_neg]
        exact fun hm => hm.2 hs
    dsimp only
    rw [hrounds]
    · show { e with forwardPool := { e.forwardPool with distributing := false } } = e
      rw [← hd]
    · exact hp

theorem Calm.ids {e : Entry} {fs : List Frame} (h : e.Calm fs) {id : Nat} {r : Record}
    (hr : e.sources.get? id = some r) : id < 2 ^ 32 ∧ id ≠ 0 ∧ id % 2 = 0 ∧ id < e.nextStreamId := by
  obtain ⟨l, hl⟩ := h.isOpen.linked id r hr
  obtain ⟨htwo, heven, hlt⟩ := h.isOpen.ids id l hl
  have := h.next
  omega

/-- A frame goes out on the shared link, or the link is full and the entry closes. -/
theorem Calm.sendOut {e : Entry} {fs : List Frame} (h : e.Calm fs) {f : Frame}
    (hid : f.streamId < e.nextStreamId)
    (hopen : ∀ r, e.sources.get? f.streamId = some r → f.body.isOpen = true) :
    Shut e (e.sendOut f) ∨
      (e.sendOut f).Calm (fs ++ [f]) ∧ e.sendOut f = { e with link := e.link.enqueue f } := by
  rcases sendOut_cases h.isOpen f with hs | ⟨ho, he⟩
  · exact .inl hs
  · rw [he]
    refine .inr ⟨⟨ho, h.pending, h.distributing, h.nothingReturned, h.multiplexed, h.next, h.records,
      fun id r hr g hg hgid => ?_, fun g hg => ?_⟩, rfl⟩
    · rcases List.mem_append.mp hg with hg | hg
      · exact h.opens id r hr g hg hgid
      · obtain rfl := List.mem_singleton.mp hg
        exact hopen r (hgid ▸ hr)
    · rcases List.mem_append.mp hg with hg | hg
      · exact h.used g hg
      · exact List.mem_singleton.mp hg ▸ hid

theorem Calm.fault {e : Entry} {fs : List Frame} (h : e.Calm fs) (f : EntryFault) :
    (e.fault f).Calm fs :=
  ⟨h.isOpen.fault f, h.pending, h.distributing, h.nothingReturned, h.multiplexed, h.next, h.records,
    h.opens, h.used⟩

theorem Calm.setRecord {e : Entry} {fs : List Frame} (h : e.Calm fs) {id : Nat} {r r' : Record}
    (hr : e.sources.get? id = some r) (ha : r'.attached = r.attached)
    (hrev : r'.reverseInFlight = r.reverseInFlight) (hreset : r'.resetReceived = r.resetReceived)
    (hend : r'.sourceEnded = r.sourceEnded) : (e.setRecord id r').Calm fs := by
  have hsum : (e.setRecord id r').reverseSum = e.reverseSum := by
    have htotal := JsMap.total_set hr r' fun _ r => r.reverseInFlight
    show e.reverseReceiveCredit + e.reverseReturnPending + (e.sources.set id r').total _ =
      e.reverseReceiveCredit + e.reverseReturnPending + e.sources.total _
    omega
  have hget : ∀ id' r'', (e.sources.set id r').get? id' = some r'' →
      ∃ r₀, e.sources.get? id' = some r₀ ∧ r''.reverseInFlight = r₀.reverseInFlight ∧
        r''.resetReceived = r₀.resetReceived ∧ r''.sourceEnded = r₀.sourceEnded := by
    intro id' r'' hr''
    rw [JsMap.get?_set] at hr''
    split at hr''
    · next heq =>
      cases hr''
      exact ⟨r, heq ▸ hr, hrev, hreset, hend⟩
    · exact ⟨r'', hr'', rfl, rfl, rfl⟩
  refine ⟨h.isOpen.setRecord hr ha (hsum ▸ h.isOpen.reverse), h.pending, h.distributing,
    h.nothingReturned, h.multiplexed, h.next, fun id' r'' hr'' => ?_, fun id' r'' hr'' => ?_, h.used⟩
  · obtain ⟨r₀, hr₀, h₁, h₂, h₃⟩ := hget id' r'' hr''
    rw [h₁, h₂, h₃]
    exact h.records id' r₀ hr₀
  · obtain ⟨r₀, hr₀, -⟩ := hget id' r'' hr''
    exact h.opens id' r₀ hr₀

/-! ## A leg closes -/

/-- The pool keeps no demand of the leg that is removed. -/
theorem pending_remove {p : Pool Nat} (h : p.pending = []) (id : Nat) :
    (p.remove id).1.pending = [] := by
  unfold Pool.remove
  split
  · exact h
  · unfold Pool.cancel
    split
    · exact h
    · show p.pending.filter _ = []
      rw [h]
      rfl

theorem Calm.detach {e : Entry} {fs : List Frame} (h : e.Calm fs) {id : Nat} {l : Link} {r : Record}
    (hl : e.links.get? id = some l) (hr : e.sources.get? id = some r) (ha : r.attached = true) :
    (e.detach id l).2 = true ∧ (e.detach id l).1.Calm fs := by
  obtain ⟨hflag, ho, hd⟩ := drift_detach h.isOpen (.self h.isOpen hr ha) hl hr
  refine ⟨hflag, ho, pending_remove h.pending id, ?_, h.nothingReturned, h.multiplexed, h.next,
    fun id' r' hr' => ?_, fun id' r' hr' => ?_, h.used⟩
  · exact hd.distributing.trans h.distributing
  · exact h.records id' r' (hd.sources id' r' hr')
  · exact h.opens id' r' (hd.sources id' r' hr')

/-- Nothing is owed to the source, so its close handler only sends the RESET. -/
theorem Calm.afterClose {e : Entry} {fs : List Frame} (h : e.Calm fs) {id : Nat} {r : Record}
    (hr : r.reverseInFlight = 0 ∧ r.resetReceived = false ∧ r.sourceEnded = false) :
    e.afterClose id r = e.sendOut ⟨id, .reset⟩ := by
  obtain ⟨hrev, hreset, hend⟩ := hr
  have hret : e.returnReverse r.reverseInFlight true = e := by
    unfold returnReverse
    rw [if_neg (by rw [h.isOpen.live]; exact Bool.false_ne_true)]
    dsimp only
    rw [if_pos (by rw [h.nothingReturned, hrev])]
  unfold Entry.afterClose
  rw [hret]
  exact if_neg (by simp [h.isOpen.live, hreset, hend])

/-- A leg that closes is taken out, and RESET goes out on the shared link. -/
theorem Calm.closeLeg {e : Entry} {fs : List Frame} (h : e.Calm fs) (now : Int) (id : Nat) :
    ((e.sources.get? id).any (fun r => r.attached) = false ∧ (Entry.closeLeg now e id).Calm fs ∧
      ∃ links, Entry.closeLeg now e id = { e with links }) ∨
    ∃ (r : Record) (l : Link), e.sources.get? id = some r ∧ r.attached = true ∧
      (e.detach id l).1.Calm fs ∧
      Entry.closeLeg now e id = (e.detach id l).1.sendOut ⟨id, .reset⟩ := by
  by_cases hatt : ∃ r, e.sources.get? id = some r ∧ r.attached = true
  · obtain ⟨r, hr, ha⟩ := hatt
    obtain ⟨-, l, hl, hlive⟩ := h.isOpen.attached id r hr ha
    obtain ⟨hflag, hc⟩ := h.detach hl hr ha
    refine .inr ⟨r, l, hr, ha, hc, ?_⟩
    unfold Entry.closeLeg closeWith
    rw [hl]
    dsimp only
    rw [if_neg (by rw [hlive]; exact Bool.false_ne_true), hr]
    dsimp only
    rw [if_neg (by rw [ha]; exact Bool.false_ne_true.symm)]
    split
    · next e₁ he =>
      obtain rfl : e₁ = (e.detach id l).1 := (congrArg Prod.fst he).symm
      rw [distribute_idle hc.pending hc.distributing, hc.afterClose (h.records id r hr)]
    · next e₁ he =>
      rw [he] at hflag
      cases hflag
  · have hnot : ∀ r, e.sources.get? id = some r → r.attached = false := fun r hr =>
      Bool.eq_false_iff.mpr fun ha => hatt ⟨r, hr, ha⟩
    have hany : (e.sources.get? id).any (fun r => r.attached) = false := by
      cases hr : e.sources.get? id with
      | none => rfl
      | some r => exact hnot r hr
    suffices hlinks : ∃ links, Entry.closeLeg now e id = { e with links } by
      obtain ⟨links, he⟩ := hlinks
      have ho : (Entry.closeLeg now e id).Open := by
        rcases drifts_closeLeg h.isOpen now id with hs | ⟨ho, -⟩
        · have := hs.closed
          rw [he] at this
          exact absurd (this.symm.trans h.isOpen.live) Bool.false_ne_true.symm
        · exact ho
      rw [he] at ho ⊢
      exact .inl ⟨hany, ⟨ho, h.pending, h.distributing, h.nothingReturned, h.multiplexed, h.next,
        h.records, h.opens, h.used⟩, links, rfl⟩
    unfold Entry.closeLeg closeWith
    split
    · exact ⟨e.links, rfl⟩
    · next l hl =>
      split
      · exact ⟨e.links, rfl⟩
      · split
        · exact ⟨_, rfl⟩
        · next r hr =>
          rw [if_pos (hnot r hr)]
          exact ⟨_, rfl⟩

/-! ## The calls of sources -/

/-- What a call leaves of a calm entry: it is gone, or it sent nothing or one frame. -/
inductive Outcome (e : Entry) (fs : List Frame) (call : SourceCall) (e' : Entry) : Prop where
  | gone : e'.Gone → e'.link = e.link.destroy → Outcome e fs call e'
  | silent : e'.Calm fs → e'.Known (openIds fs) → e'.link = e.link → e.opening call = none →
      Outcome e fs call e'
  | sent (f : Frame) : e'.Calm (fs ++ [f]) → e'.Known (openIds (fs ++ [f])) →
      e'.link = e.link.enqueue f → Follows fs f →
      e.opening call = (if f.body.isOpen then some f.streamId else none) →
      (f.body.isOpen = false → f.streamId ∉ openIds fs → e.abandons (openIds fs) call = true) →
      Outcome e fs call e'

/-- The leg of a call closes; `e₀` is the entry with the fault recorded. -/
theorem Calm.closeLeg_outcome {e e₀ : Entry} {fs : List Frame} {call : SourceCall} (h : e₀.Calm fs)
    (hk : e₀.Known (openIds fs)) (hlink : e₀.link = e.link) (now : Int) {id : Nat}
    (hopening : e.opening call = none)
    (habandons : ∀ r, e₀.sources.get? id = some r → r.attached = true → id ∉ openIds fs →
      e.abandons (openIds fs) call = true) : Outcome e fs call (Entry.closeLeg now e₀ id) := by
  rcases h.closeLeg now id with ⟨-, hc, links, he⟩ | ⟨r, l, hr, ha, hc, he⟩
  · have hk' : (Entry.closeLeg now e₀ id).Known (openIds fs) := by
      rw [he]
      exact hk
    have hl' : (Entry.closeLeg now e₀ id).link = e.link := by
      rw [he]
      exact hlink
    exact .silent hc hk' hl' hopening
  · have hgone : (e₀.detach id l).1.sources.get? id = none := JsMap.get?_delete_self _ _
    obtain ⟨hlt, hne, heven, hnext⟩ := h.ids hr
    rw [he]
    rcases hc.sendOut (f := ⟨id, .reset⟩) hnext
        (fun r' hr' => absurd (hr'.symm.trans hgone) (Option.some_ne_none r')) with hs | ⟨hc', he'⟩
    · refine .gone hs.gone ?_
      rw [hs.link, ← hlink]
      rfl
    · refine .sent ⟨id, .reset⟩ hc' ?_ ?_ ⟨⟨hlt, hne, heven⟩, h.opens id r hr, ?_⟩ hopening ?_
      · rw [he']
        intro id' r' hr' hcond
        have hr'' : (e₀.sources.delete id).get? id' = some r' := hr'
        rw [JsMap.get?_delete] at hr''
        split at hr''
        · cases hr''
        · rw [openIds_append]
          exact List.mem_append_left _ (hk id' r' hr'' hcond)
      · rw [he', ← hlink]
        rfl
      · intro ho
        cases ho
      · exact fun _ hno => habandons r hr ha hno

theorem Calm.open_outcome {e e₀ : Entry} {fs : List Frame} {call : SourceCall} {f : Frame}
    (h : e₀.Calm fs) (hlink : e₀.link = e.link) (hf : Follows fs f) (ho : f.body.isOpen = true)
    (hk : ∀ id r, e₀.sources.get? id = some r →
      r.splice.isSome = true ∨ e₀.spliced = false ∧ r.attached = true →
      id ∈ openIds fs ∨ id = f.streamId)
    (hnext : f.streamId < e₀.nextStreamId) (hopening : e.opening call = some f.streamId) :
    Outcome e fs call (e₀.sendOut f) := by
  rcases h.sendOut hnext (fun _ _ => ho) with hs | ⟨hc, he⟩
  · exact .gone hs.gone (hs.link.trans (congrArg Link.destroy hlink))
  · refine .sent f hc ?_ ?_ hf ?_ ?_
    · rw [he]
      intro id r hr hcond
      rw [openIds_snoc, ho, if_pos rfl]
      rcases hk id r hr hcond with hin | rfl
      · exact List.mem_append_left _ hin
      · exact List.mem_append_right _ List.mem_cons_self
    · rw [he, ← hlink]
    · rw [ho, if_pos rfl]
      exact hopening
    · intro hno
      rw [ho] at hno
      cases hno

theorem Calm.opens_outcome {e : Entry} {fs : List Frame} (h : e.Calm fs) (hk : e.Known (openIds fs))
    {id : Nat} {now : Int}
    (hord : ∀ id', e.opening (.opens id now) = some id' → ∀ o ∈ openIds fs, o < id') :
    Outcome e fs (.opens id now) (e.serve (.opens id now)) := by
  show Outcome e fs _ (fromSource now e id (.frame ⟨0, .openStream⟩) none)
  unfold fromSource
  cases hr : e.sources.get? id with
  | none => exact .silent h hk rfl (by simp [opening, idle, hr])
  | some r =>
    dsimp only
    by_cases ha : r.attached = false
    · rw [if_pos ha]
      exact .silent h hk rfl (by simp [opening, idle, hr, ha])
    · rw [if_neg ha]
      have ha' : r.attached = true := by simpa using ha
      show Outcome e fs _ (if e.spliced = false ∨ r.splice.isSome = true then
        failLeg now e id .splice else e.sendOut ⟨id, .openStream⟩)
      by_cases hc : e.spliced = false ∨ r.splice.isSome = true
      · rw [if_pos hc]
        -- the stream was opened before, by `activate` or by the frame that made the splice
        have hin : id ∈ openIds fs := hk id r hr (hc.symm.imp_right fun hs => ⟨hs, ha'⟩)
        refine (h.fault .splice).closeLeg_outcome (e := e) hk rfl now ?_ fun _ _ _ hno => absurd hin hno
        rcases hc with hs | hs
        · simp [opening, hs]
        · simp [opening, idle, hr, Option.isSome_iff_ne_none.mp hs]
      · rw [if_neg hc]
        rw [not_or] at hc
        have hopening : e.opening (.opens id now) = some id := by
          simp [opening, idle, hr, ha', hc.1, Option.not_isSome_iff_eq_none.mp hc.2]
        obtain ⟨hlt, hne, heven, hnext⟩ := h.ids hr
        exact h.open_outcome rfl ⟨⟨hlt, hne, heven⟩, h.opens id r hr, fun _ => hord id hopening⟩ rfl
          (fun id' r' hr' hcond => .inl (hk id' r' hr' hcond)) hnext hopening

theorem decodeLogical_spliceOpen (udxId : Nat) :
    decodeLogical (.frame ⟨0, .spliceOpen udxId⟩) =
      if udxId ≠ 0 ∧ udxId ≤ 0xffffffff then some ⟨0, .spliceOpen udxId⟩ else none := by
  have hvalid : validLogicalPayload 0 (.spliceOpen udxId) = decide (udxId ≠ 0 ∧ udxId ≤ 0xffffffff) := by
    rw [Bool.eq_iff_iff]
    simp [validLogicalPayload, circuitStreamId, and_comm]
  unfold decodeLogical
  dsimp only
  rw [hvalid]
  simp

theorem Calm.spliceOpens_outcome {e : Entry} {fs : List Frame} (h : e.Calm fs)
    (hk : e.Known (openIds fs)) {id udxId up down : Nat} {now : Int}
    (hord : ∀ id', e.opening (.spliceOpens id udxId up down now) = some id' →
      ∀ o ∈ openIds fs, o < id') :
    Outcome e fs (.spliceOpens id udxId up down now)
      (e.serve (.spliceOpens id udxId up down now)) := by
  show Outcome e fs _ (fromSource now e id (.frame ⟨0, .spliceOpen udxId⟩) (some (up, down)))
  unfold fromSource
  cases hr : e.sources.get? id with
  | none => exact .silent h hk rfl (by simp [opening, idle, hr])
  | some r =>
    dsimp only
    by_cases ha : r.attached = false
    · rw [if_pos ha]
      exact .silent h hk rfl (by simp [opening, idle, hr, ha])
    · rw [if_neg ha, decodeLogical_spliceOpen]
      have ha' : r.attached = true := by simpa using ha
      by_cases hu : udxId ≠ 0 ∧ udxId ≤ 0xffffffff
      · rw [if_pos hu]
        show Outcome e fs _ (if r.splice.isSome = true then failLeg now e id .splice
          else (e.setRecord id { r with splice := some ⟨up, down, false⟩ }).sendOut
            ⟨id, .spliceOpen down⟩)
        by_cases hs : r.splice.isSome = true
        · rw [if_pos hs]
          refine (h.fault .splice).closeLeg_outcome (e := e) hk rfl now ?_ fun _ _ _ hno =>
            absurd (hk id r hr (.inl hs)) hno
          simp [opening, idle, hr, Option.isSome_iff_ne_none.mp hs]
        · rw [if_neg hs]
          have hopening : e.opening (.spliceOpens id udxId up down now) = some id := by
            simp [opening, idle, hr, ha', hu.1, hu.2, Option.not_isSome_iff_eq_none.mp hs]
          obtain ⟨hlt, hne, heven, hnext⟩ := h.ids hr
          refine Calm.open_outcome (e := e) (h.setRecord hr rfl rfl rfl rfl) rfl
            ⟨⟨hlt, hne, heven⟩, h.opens id r hr, fun _ => hord id hopening⟩ rfl
            (fun id' r' hr' hcond => ?_) hnext hopening
          have hr'' : (e.sources.set id _).get? id' = some r' := hr'
          by_cases hid : id' = id
          · exact .inr hid
          · rw [JsMap.get?_set_ne _ _ hid] at hr''
            exact .inl (hk id' r' hr'' hcond)
      · rw [if_neg hu]
        refine (h.fault .decode).closeLeg_outcome (e := e) hk rfl now ?_ fun r' hr' ha'' hno => ?_
        · simp only [opening]
          rw [decide_eq_false hu, Bool.and_false]
          rfl
        · simp only [abandons]
          rw [hr, decide_eq_true hno, decide_eq_true hu]
          simpa using ha'

theorem Calm.register {e : Entry} {fs : List Frame} (h : e.Calm fs) (hr : e.refuses = false) :
    e.register.Calm fs := by
  have hget : ∀ id r, e.register.sources.get? id = some r →
      id = e.nextStreamId ∧ r = .new ∨ e.sources.get? id = some r := by
    intro id r hr
    have hr' : (e.sources.set e.nextStreamId .new).get? id = some r := hr
    rw [JsMap.get?_set] at hr'
    split at hr'
    · next heq =>
      cases hr'
      exact .inl ⟨heq, rfl⟩
    · exact .inr hr'
  refine ⟨h.isOpen.register.1, h.pending, h.distributing, h.nothingReturned, h.multiplexed, ?_,
    fun id r hr => ?_, fun id r hr f hf hid => ?_, fun f hf => ?_⟩
  · have hlt : ¬circuitStreamId ≤ e.nextStreamId := by
      intro hle
      simp [refuses, hle] at hr
    have hc : circuitStreamId = 2 ^ 32 - 1 := rfl
    show e.nextStreamId + 2 ≤ 2 ^ 32
    omega
  · rcases hget id r hr with ⟨-, rfl⟩ | hr
    · exact ⟨rfl, rfl, rfl⟩
    · exact h.records id r hr
  · rcases hget id r hr with ⟨rfl, -⟩ | hr
    · exact absurd hid (Nat.ne_of_lt (h.used f hf))
    · exact h.opens id r hr f hf hid
  · exact Nat.lt_add_right 2 (h.used f hf)

theorem Calm.attach {e : Entry} {fs : List Frame} (h : e.Calm fs) (hr : e.refuses = false)
    {p : Pool Nat} (hp : e.forwardPool.add e.nextStreamId = .ok p) :
    ({ e.register with forwardPool := p }.setRecord e.nextStreamId
      { Record.new with attached := true }).Calm fs := by
  have hreg := h.register hr
  obtain ⟨ho, -⟩ := h.isOpen.attach hp
  obtain ⟨-, -, rfl⟩ := Pool.add_cases hp
  refine ⟨ho, h.pending, h.distributing, h.nothingReturned, h.multiplexed, hreg.next,
    fun id r hr => ?_, fun id r hr f hf hid => ?_, hreg.used⟩
  all_goals
    have hr' : (e.register.sources.set e.nextStreamId { Record.new with attached := true }).get? id =
      some r := hr
    rw [JsMap.get?_set] at hr'
    split at hr'
  · cases hr'
    exact ⟨rfl, rfl, rfl⟩
  · exact hreg.records id r hr'
  · next heq => exact absurd (hid.trans heq) (Nat.ne_of_lt (h.used f hf))
  · exact hreg.opens id r hr' f hf hid

theorem Calm.activate_outcome {e : Entry} {fs : List Frame} (h : e.Calm fs)
    (hk : e.Known (openIds fs)) {readable : Bool} :
    Outcome e fs (.activate readable) (e.serve (.activate readable)) := by
  show Outcome e fs _ (e.activate readable).1
  cases hr : e.refuses with
  | true =>
    have he : e.activate readable = (e, none) := if_pos hr
    rw [he]
    refine .silent h hk rfl ?_
    simp only [opening]
    split
    · rfl
    · simp [hr]
  | false =>
    rcases activate_cases hr readable with ⟨⟨f, hf⟩, he⟩ | ⟨p, e', hp, rfl, he⟩
    · rw [he]
      refine .silent (h.register hr) ?_ rfl (by simp [opening, hf])
      intro id r hr hcond
      have hr' : (e.sources.set e.nextStreamId .new).get? id = some r := hr
      rw [JsMap.get?_set] at hr'
      split at hr'
      · cases hr'
        simp [Record.new] at hcond
      · exact hk id r hr' hcond
    · rw [he]
      dsimp only
      have hcalm := h.attach hr hp
      have hget : ∀ id r, ({ e.register with forwardPool := p }.setRecord e.nextStreamId
          { Record.new with attached := true }).sources.get? id = some r →
          id = e.nextStreamId ∧ r.splice = none ∨ e.sources.get? id = some r := by
        intro id r hr'
        have hr'' : ((e.sources.set e.nextStreamId .new).set e.nextStreamId
          { Record.new with attached := true }).get? id = some r := hr'
        rw [JsMap.get?_set] at hr''
        split at hr''
        · next heq =>
          cases hr''
          exact .inl ⟨heq, rfl⟩
        · next hne => exact .inr ((JsMap.get?_set_ne _ _ hne).symm.trans hr'')
      cases hs : e.spliced with
      | true =>
        rw [if_pos rfl]
        refine .silent hcalm ?_ rfl (by simp [opening, hp, hs])
        intro id r hr' hcond
        rcases hget id r hr' with ⟨-, hnone⟩ | hr'
        · rcases hcond with hsome | ⟨hstd, -⟩
          · rw [hnone] at hsome
            cases hsome
          · have hstd' : e.spliced = false := hstd
            rw [hs] at hstd'
            cases hstd'
        · exact hk id r hr' hcond
      | false =>
        rw [if_neg Bool.false_ne_true]
        obtain ⟨htwo, heven⟩ := h.isOpen.even
        have hnext := (h.register hr).next
        have hlt : e.nextStreamId < 2 ^ 32 := by
          have : e.nextStreamId + 2 ≤ 2 ^ 32 := hnext
          omega
        have hlast : e.nextStreamId < e.nextStreamId + 2 := by omega
        have hne : e.nextStreamId ≠ 0 := by omega
        refine hcalm.open_outcome (e := e) rfl ⟨⟨hlt, hne, heven⟩, fun g hg hid => ?_, fun _ id hid => ?_⟩
          rfl (fun id r hr' hcond => ?_) hlast (by simp [opening, hp, hs, hr])
        · exact absurd hid (Nat.ne_of_lt (h.used g hg))
        · obtain ⟨g, hg, -⟩ := mem_openIds.mp hid
          obtain ⟨hmem, rfl⟩ := mem_framesOf.mp hg
          exact h.used g hmem
        · rcases hget id r hr' with ⟨heq, -⟩ | hr'
          · exact .inr heq
          · exact .inl (hk id r hr' hcond)

/-- **What a call of a source does** to the shared link. -/
theorem Calm.outcome {e : Entry} {fs : List Frame} (h : e.Calm fs) (hk : e.Known (openIds fs))
    {call : SourceCall} (hord : ∀ id, e.opening call = some id → ∀ o ∈ openIds fs, o < id) :
    Outcome e fs call (e.serve call) := by
  cases call with
  | activate readable => exact h.activate_outcome hk
  | opens id now => exact h.opens_outcome hk hord
  | spliceOpens id udxId up down now => exact h.spliceOpens_outcome hk hord
  | closes id now =>
    refine h.closeLeg_outcome hk rfl now rfl fun r hr ha hno => ?_
    simp only [abandons]
    rw [hr, decide_eq_true hno]
    simpa using ha

theorem Gone.serve {e : Entry} (h : e.Gone) (call : SourceCall) : e.serve call = e := by
  have hnone : ∀ id, e.sources.get? id = none := fun id => by rw [h.sources]; rfl
  cases call with
  | activate readable =>
    show (e.activate readable).1 = e
    unfold activate
    rw [if_pos (by simp [refuses, h.closed])]
  | opens id now =>
    unfold Entry.serve fromSource
    dsimp only
    rw [hnone id]
  | spliceOpens id udxId up down now =>
    unfold Entry.serve fromSource
    dsimp only
    rw [hnone id]
  | closes id now => exact h.closeLeg now id

theorem Calm.setLink {e : Entry} {fs : List Frame} (h : e.Calm fs) {l : Link}
    (hd : l.destroyed = e.link.destroyed) (hm : l.multiplexed = e.link.multiplexed) :
    Calm { e with link := l } fs :=
  ⟨h.isOpen.setLink (hd.trans h.isOpen.link), h.pending, h.distributing, h.nothingReturned,
    hm.trans h.multiplexed, h.next, h.records, h.opens, h.used⟩

/-! ## The entry and its queues -/

/-- What the entry has sealed comes from what it was made to send, in an order that
pays for itself; a closed entry seals no more. -/
def Sends (e : Entry) (opened : List Nat) (abandoned : Nat) (sealed : List Frame) : Prop :=
  e.Gone ∧ e.link.sends = .empty ∨
    ∃ fs, e.Calm fs ∧ e.Known (openIds fs) ∧ Disciplined fs ∧ Sent fs e.link.sends sealed ∧
      opened = openIds fs ∧ loose fs ≤ abandoned

theorem Sends.serve {e : Entry} {opened : List Nat} {abandoned : Nat} {sealed : List Frame}
    (h : e.Sends opened abandoned sealed) (call : SourceCall)
    (hord : ∀ id, e.opening call = some id → ∀ o ∈ opened, o < id)
    (hspare : e.abandons opened call = true → abandoned < spare opened.length + 15) :
    (e.serve call).Sends (opened ++ (e.opening call).toList)
      (abandoned + if e.abandons opened call then 1 else 0) sealed ∧
      (e.serve call).link.wire = e.link.wire := by
  rcases h with ⟨hg, hempty⟩ | ⟨fs, hc, hk, hd, hs, rfl, hloose⟩
  · rw [hg.serve call]
    exact ⟨.inl ⟨hg, hempty⟩, rfl⟩
  · cases hc.outcome hk hord with
    | gone hg hl =>
      rw [hl]
      refine ⟨.inl ⟨hg, ?_⟩, rfl⟩
      rw [hl]
      rfl
    | silent hc' hk' hl hop =>
      rw [hl]
      refine ⟨.inr ⟨fs, hc', hk', hd, hl.symm ▸ hs, ?_, Nat.le_add_right_of_le hloose⟩, rfl⟩
      rw [hop]
      exact List.append_nil _
    | sent f hc' hk' hl hf hop hab =>
      have hd' := hd.snoc hf fun ho hno => lt_of_le_of_lt hloose (hspare (hab ho hno))
      have hqueue : e.link.queueOf f = f.streamId := by
        unfold Link.queueOf
        rw [hc.multiplexed, if_pos rfl]
      rw [hl]
      refine ⟨.inr ⟨fs ++ [f], hc', hk', hd', ?_, ?_, ?_⟩, rfl⟩
      · rw [hl]
        show Sent (fs ++ [f]) (e.link.sends.enqueue (e.link.queueOf f) f) sealed
        rw [hqueue]
        exact hs.enqueue hd'
      · rw [hop, openIds_snoc]
        cases f.body.isOpen with
        | true => rfl
        | false => rfl
      · rw [hf.loose]
        apply Nat.add_le_add hloose
        by_cases hcond : f.body.isOpen = false ∧ f.streamId ∉ openIds fs
        · rw [if_pos hcond, if_pos (hab hcond.1 hcond.2)]
        · rw [if_neg hcond]
          exact Nat.zero_le _

theorem Sends.next {e : Entry} {opened : List Nat} {abandoned : Nat} {sealed : List Frame}
    (h : e.Sends opened abandoned sealed) {k : Nat} {f : Frame} {r : Ring Nat Frame}
    (hn : e.link.sends.next sendQuantum = some (k, f, r)) :
    Disciplined (sealed ++ [f]) ∧
      Sends { e with link := { e.link with sends := r, wire := e.link.wire ++ [f] } } opened abandoned
        (sealed ++ [f]) := by
  rcases h with ⟨hg, hempty⟩ | ⟨fs, hc, hk, hd, hs, ho, hloose⟩
  · rw [hempty] at hn
    cases hn
  · have hs' : Sent fs r (sealed ++ [f]) := (Ring.Served.next hs hn).2
    exact ⟨hs'.disciplined hd, .inr ⟨fs, hc.setLink rfl rfl, hk, hd, hs', ho, hloose⟩⟩

theorem Sends.setLink {e : Entry} {opened : List Nat} {abandoned : Nat} {sealed : List Frame}
    (h : e.Sends opened abandoned sealed) {l : Link} (hd : l.destroyed = e.link.destroyed)
    (hm : l.multiplexed = e.link.multiplexed) (hs : l.sends = e.link.sends) :
    Sends { e with link := l } opened abandoned sealed := by
  rcases h with ⟨hg, hempty⟩ | ⟨fs, hc, hk, hdis, hsent, ho, hloose⟩
  · exact .inl ⟨⟨hg.closed, hg.poolClosed, hg.sources, hg.links, hd.trans hg.link⟩, hs.trans hempty⟩
  · exact .inr ⟨fs, hc.setLink hd hm, hk, hdis, hs.symm ▸ hsent, ho, hloose⟩

theorem Sends.destroy {e : Entry} {opened : List Nat} {abandoned : Nat} {sealed : List Frame}
    (h : e.Sends opened abandoned sealed) :
    e.destroy.Sends opened abandoned sealed ∧ e.destroy.link.wire = e.link.wire := by
  rcases h with ⟨hg, hempty⟩ | ⟨fs, hc, -⟩
  · have he : e.destroy = e := if_pos hg.closed
    rw [he]
    exact ⟨.inl ⟨hg, hempty⟩, rfl⟩
  · have hs := shut_destroy hc.isOpen
    rw [hs.link]
    refine ⟨.inl ⟨hs.gone, ?_⟩, rfl⟩
    rw [hs.link]
    rfl

end Entry

/-! ## The guard -/

namespace Guard

theorem shape_forward {splices splices' : JsMap Nat Splice} {raw : Option (Nat × Nat)} {f f' : Frame}
    (h : forward splices raw f = some (splices', f')) : shape f' = shape f := by
  obtain ⟨id, body⟩ := f
  unfold forward at h
  cases body with
  | spliceOpen udxId =>
    dsimp only at h
    split at h
    · cases h
    · split at h
      · cases h
      · cases h
        rfl
  | spliceReady udxId =>
    dsimp only at h
    split at h
    · cases h
    · split at h
      · cases h
      · cases h
        rfl
  | _ =>
    cases h
    rfl

/-- The guard has read `read` from the entry and sealed `sealed` for the destination. -/
structure Passes (g : Guard) (read sealed : List Frame) : Prop where
  entrySide : g.entrySide.Ahead .receive read
  destinationSide : g.destinationSide.Ahead .send sealed
  disciplined : Disciplined sealed
  queues : g.closed = true ∧ g.link.sends = .empty ∨
    g.link.multiplexed = true ∧ ∃ queued, Sent queued g.link.sends sealed ∧ Disciplined queued ∧
      queued.map shape = read.map shape

theorem Passes.close {g : Guard} {read sealed : List Frame}
    (h₁ : g.entrySide.Ahead .receive read) (h₂ : g.destinationSide.Ahead .send sealed)
    (h₃ : Disciplined sealed) : g.close.Passes read sealed :=
  ⟨h₁, h₂, h₃, .inl ⟨rfl, rfl⟩⟩

theorem Passes.receive {g : Guard} {read sealed : List Frame} (h : g.Passes read sealed)
    (hopen : g.closed = false) {f : Frame} (hd : Disciplined (read ++ [f]))
    (raw : Option (Nat × Nat)) :
    (g.receive raw f).Passes (read ++ [f]) sealed ∧ (g.receive raw f).link.wire = g.link.wire := by
  have hahead := h.entrySide.opened hd.paced
  unfold Guard.receive
  dsimp only
  rw [if_neg (by rw [hahead.live]; exact Bool.false_ne_true)]
  split
  · exact ⟨.close hahead h.destinationSide h.disciplined, rfl⟩
  · next splices f' hf =>
    split
    · exact ⟨.close hahead h.destinationSide h.disciplined, rfl⟩
    · rcases h.queues with ⟨hc, -⟩ | ⟨hm, queued, hs, -, hshape⟩
      · exact absurd (hc.symm.trans hopen) Bool.false_ne_true.symm
      · have hshape' : (queued ++ [f']).map shape = (read ++ [f]).map shape := by
          rw [List.map_append, List.map_append, hshape, List.map_singleton, List.map_singleton,
            shape_forward hf]
        have hd' := hd.congr hshape'
        have hqueue : g.link.queueOf f' = f'.streamId := by
          unfold Link.queueOf
          rw [hm, if_pos rfl]
        refine ⟨⟨hahead, h.destinationSide, h.disciplined, .inr ⟨hm, queued ++ [f'], ?_, hd', hshape'⟩⟩,
          rfl⟩
        show Sent _ (g.link.sends.enqueue (g.link.queueOf f') f') _
        rw [hqueue]
        exact hs.enqueue hd'

theorem Passes.sealNext {g : Guard} {read sealed : List Frame} (h : g.Passes read sealed) :
    ∃ more, g.sealNext.Passes read (sealed ++ more) ∧
      g.sealNext.link.wire = g.link.wire ++ more := by
  unfold Guard.sealNext
  cases hn : g.link.sends.next sendQuantum with
  | none =>
    refine ⟨[], ?_, (List.append_nil _).symm⟩
    rw [List.append_nil]
    exact h
  | some next =>
    obtain ⟨k, f, r⟩ := next
    rcases h.queues with ⟨-, hempty⟩ | ⟨hm, queued, hs, hd, hshape⟩
    · rw [hempty] at hn
      cases hn
    · have hs' : Sent queued r (sealed ++ [f]) := (Ring.Served.next hs hn).2
      have hd' := hs'.disciplined hd
      have hahead := h.destinationSide.sealed hd'.paced
      have hnext : g.link.nextSend = { g.link with sends := r, wire := g.link.wire ++ [f] } := by
        unfold Link.nextSend
        rw [hn]
      dsimp only
      rw [if_neg (by rw [hahead.live]; exact Bool.false_ne_true), hnext]
      exact ⟨[f], ⟨h.entrySide, hahead, hd', .inr ⟨hm, queued, hs', hd, hshape⟩⟩, rfl⟩

theorem Passes.setLink {g : Guard} {read sealed : List Frame} (h : g.Passes read sealed) {l : Link}
    (hm : l.multiplexed = g.link.multiplexed) (hs : l.sends = g.link.sends) :
    Passes { g with link := l } read sealed := by
  refine ⟨h.entrySide, h.destinationSide, h.disciplined, ?_⟩
  rcases h.queues with ⟨hc, hempty⟩ | ⟨hm', queued, hsent, hrest⟩
  · exact .inl ⟨hc, hs.trans hempty⟩
  · exact .inr ⟨hm.trans hm', queued, hs.symm ▸ hsent, hrest⟩

end Guard

/-! ## Runs of the shared link -/

namespace SharedRoute

/-- The cells on their way: `sealed` by the entry, `read` and `resealed` by the guard,
and `arrived` at the destination. -/
structure Paid (s : SharedRoute) (sealed read resealed arrived : List Frame) : Prop where
  entry : s.entry.Sends s.opened s.abandoned sealed
  disciplined : Disciplined sealed
  entryLedgers : s.entryLedgers.Ahead .send sealed
  wire : sealed = read ++ s.entry.link.wire
  guard : s.guard.Passes read resealed
  guardWire : resealed = arrived ++ s.guard.link.wire
  destination : s.destination.Ahead .receive arrived

theorem disciplined_nil : Disciplined [] := by
  refine ⟨List.Pairwise.nil, fun _ hf => (List.not_mem_nil hf).elim, fun _ => .nil, fun {p} hp => ?_⟩
  rw [List.prefix_nil.mp hp]
  exact Nat.zero_le _

theorem paid_new (spliced : Bool) (memory : MemoryTree) : (new spliced memory).Paid [] [] [] [] := by
  have hahead := LinkLedgers.ahead_new memory
  refine ⟨.inr ⟨[], Entry.calm_new spliced, fun id r hr => ?_, disciplined_nil, sent_empty, rfl, ?_⟩,
    disciplined_nil, hahead .send, rfl,
    ⟨hahead .receive, hahead .send, disciplined_nil,
      .inr ⟨rfl, [], sent_empty, disciplined_nil, rfl⟩⟩, rfl, hahead .receive⟩
  · cases hr
  · exact Nat.zero_le _

theorem Paid.seal {s : SharedRoute} {sealed read resealed arrived : List Frame}
    (h : s.Paid sealed read resealed arrived) :
    ∃ sealed', s.sealNext.Paid sealed' read resealed arrived := by
  unfold sealNext
  cases hn : s.entry.link.sends.next sendQuantum with
  | none => exact ⟨sealed, h⟩
  | some next =>
    obtain ⟨k, f, r⟩ := next
    obtain ⟨hd, hsends⟩ := h.entry.next hn
    have hahead := h.entryLedgers.sealed hd.paced
    have hnext : s.entry.link.nextSend =
        { s.entry.link with sends := r, wire := s.entry.link.wire ++ [f] } := by
      unfold Link.nextSend
      rw [hn]
    dsimp only
    rw [if_neg (by rw [hahead.live]; exact Bool.false_ne_true), hnext]
    refine ⟨sealed ++ [f], hsends, hd, hahead, ?_, h.guard, h.guardWire, h.destination⟩
    show sealed ++ [f] = read ++ (s.entry.link.wire ++ [f])
    rw [h.wire, List.append_assoc]

theorem Paid.guardReads {s : SharedRoute} {sealed read resealed arrived : List Frame}
    (h : s.Paid sealed read resealed arrived) (raw : Option (Nat × Nat)) :
    ∃ read', (s.guardReads raw).Paid sealed read' resealed arrived := by
  unfold SharedRoute.guardReads
  split
  · exact ⟨read, h⟩
  · next hopen =>
    unfold Link.take
    cases hw : s.entry.link.wire with
    | nil => exact ⟨read, h⟩
    | cons f wire =>
      have hwire : sealed = read ++ [f] ++ wire := by
        rw [h.wire, hw, List.append_assoc]
        rfl
      have hd : Disciplined (read ++ [f]) := (hwire ▸ h.disciplined : Disciplined _).initial
      obtain ⟨hpass, hgw⟩ := h.guard.receive (by simpa using hopen) hd raw
      exact ⟨read ++ [f], h.entry.setLink rfl rfl rfl, h.disciplined, h.entryLedgers, hwire, hpass,
        h.guardWire.trans (congrArg (arrived ++ ·) hgw.symm), h.destination⟩

theorem Paid.destinationReads {s : SharedRoute} {sealed read resealed arrived : List Frame}
    (h : s.Paid sealed read resealed arrived) :
    ∃ arrived', s.destinationReads.Paid sealed read resealed arrived' := by
  unfold SharedRoute.destinationReads Link.take
  cases hw : s.guard.link.wire with
  | nil => exact ⟨arrived, h⟩
  | cons f wire =>
    have hwire : resealed = arrived ++ [f] ++ wire := by
      rw [h.guardWire, hw, List.append_assoc]
      rfl
    have hd : Disciplined (arrived ++ [f]) := (hwire ▸ h.guard.disciplined : Disciplined _).initial
    exact ⟨arrived ++ [f], h.entry, h.disciplined, h.entryLedgers, h.wire, h.guard.setLink rfl rfl,
      hwire, h.destination.opened hd.paced⟩

theorem Paid.step {s : SharedRoute} {sealed read resealed arrived : List Frame}
    (h : s.Paid sealed read resealed arrived) {ev : RouteEvent} (ho : s.orderly ev = true) :
    ∃ sealed' read' resealed' arrived', (s.step ev).Paid sealed' read' resealed' arrived' := by
  cases ev with
  | source call =>
    obtain ⟨hord, hspare⟩ := Bool.and_eq_true_iff.mp ho
    obtain ⟨hsends, hwire⟩ := h.entry.serve call
      (fun id hid o hin => by
        rw [hid] at hord
        simpa using List.all_eq_true.mp hord o hin)
      (fun hab => by
        rw [hab] at hspare
        simpa using hspare)
    exact ⟨sealed, read, resealed, arrived, hsends, h.disciplined, h.entryLedgers,
      h.wire.trans (congrArg (read ++ ·) hwire.symm), h.guard, h.guardWire, h.destination⟩
  | entrySeals =>
    obtain ⟨sealed', h'⟩ := h.seal
    exact ⟨sealed', read, resealed, arrived, h'⟩
  | entrySettles data =>
    refine ⟨sealed, read, resealed, arrived, h.entry.setLink ?_ ?_ ?_, h.disciplined, h.entryLedgers,
      ?_, h.guard, h.guardWire, h.destination⟩
    all_goals cases data
    all_goals first | rfl | exact h.wire
  | entryCloses =>
    obtain ⟨hsends, hwire⟩ := h.entry.destroy
    exact ⟨sealed, read, resealed, arrived, hsends, h.disciplined, h.entryLedgers,
      h.wire.trans (congrArg (read ++ ·) hwire.symm), h.guard, h.guardWire, h.destination⟩
  | guardReads raw =>
    obtain ⟨read', h'⟩ := h.guardReads raw
    exact ⟨sealed, read', resealed, arrived, h'⟩
  | guardSeals =>
    obtain ⟨more, hpass, hwire⟩ := h.guard.sealNext
    refine ⟨sealed, read, resealed ++ more, arrived, h.entry, h.disciplined, h.entryLedgers, h.wire,
      hpass, ?_, h.destination⟩
    show resealed ++ more = arrived ++ s.guard.sealNext.link.wire
    rw [hwire, h.guardWire, List.append_assoc]
  | guardSettles data =>
    refine ⟨sealed, read, resealed, arrived, h.entry, h.disciplined, h.entryLedgers, h.wire,
      h.guard.setLink ?_ ?_, ?_, h.destination⟩
    all_goals cases data
    all_goals first | rfl | exact h.guardWire
  | guardSpliceEnds id =>
    exact ⟨sealed, read, resealed, arrived, h.entry, h.disciplined, h.entryLedgers, h.wire,
      ⟨h.guard.entrySide, h.guard.destinationSide, h.guard.disciplined, h.guard.queues⟩, h.guardWire,
      h.destination⟩
  | guardCloses =>
    exact ⟨sealed, read, resealed, arrived, h.entry, h.disciplined, h.entryLedgers, h.wire,
      .close h.guard.entrySide h.guard.destinationSide h.guard.disciplined, h.guardWire, h.destination⟩
  | destinationReads =>
    obtain ⟨arrived', h'⟩ := h.destinationReads
    exact ⟨sealed, read, resealed, arrived', h'⟩

theorem Paid.run {s : SharedRoute} {sealed read resealed arrived : List Frame}
    (h : s.Paid sealed read resealed arrived) {evs : List RouteEvent} (ho : s.Orderly evs) :
    ∃ sealed' read' resealed' arrived', (s.run evs).Paid sealed' read' resealed' arrived' := by
  induction evs generalizing s sealed read resealed arrived with
  | nil => exact ⟨sealed, read, resealed, arrived, h⟩
  | cons ev evs ih =>
    obtain ⟨sealed', read', resealed', arrived', h'⟩ := h.step ho.1
    exact ih h' ho.2

/-- **Orderly sources do not exhaust the shared link**: in every run in which streams
open in the order of their ids and abandoned activations stay within what is left of
the control cells and the earlier streams' allowances, no charge fails. -/
theorem orderly_not_exhausted (spliced : Bool) (memory : MemoryTree) (evs : List RouteEvent)
    (ho : (new spliced memory).Orderly evs) : ((new spliced memory).run evs).exhausted = false := by
  obtain ⟨sealed, read, resealed, arrived, h⟩ := (paid_new spliced memory).run ho
  unfold exhausted
  rw [h.entryLedgers.live, h.guard.entrySide.live, h.guard.destinationSide.live, h.destination.live]
  rfl

/-- One stream opens and closes, another is abandoned, and all their cells arrive. -/
theorem orderly_not_exhausted_mixed :
    (new true .empty).Orderly
        [.source (.activate true), .source (.activate true), .source (.opens 2 0), .entrySeals,
          .source (.closes 4 0), .source (.closes 2 0), .entrySeals, .entrySeals, .guardReads none,
          .guardReads none, .guardSeals, .guardSeals, .destinationReads, .destinationReads] ∧
      ((new true .empty).run
        [.source (.activate true), .source (.activate true), .source (.opens 2 0), .entrySeals,
          .source (.closes 4 0), .source (.closes 2 0), .entrySeals, .entrySeals, .guardReads none,
          .guardReads none, .guardSeals, .guardSeals, .destinationReads,
          .destinationReads]).exhausted = false := by
  have ho : (new true .empty).Orderly
      [.source (.activate true), .source (.activate true), .source (.opens 2 0), .entrySeals,
        .source (.closes 4 0), .source (.closes 2 0), .entrySeals, .entrySeals, .guardReads none,
        .guardReads none, .guardSeals, .guardSeals, .destinationReads, .destinationReads] :=
    ⟨by decide +kernel, by decide +kernel, by decide +kernel, by decide +kernel, by decide +kernel,
      by decide +kernel, rfl, rfl, rfl, rfl, rfl, rfl, rfl, rfl, trivial⟩
  exact ⟨ho, orderly_not_exhausted true _ _ ho⟩

/-- A source of the spliced profile that activates and closes its leg. -/
def abandonedRun (n : Nat) : List RouteEvent :=
  (List.range n).flatMap fun i =>
    [.source (.activate true), .source (.closes (2 * i + 2) 0), .entrySeals, .entrySettles false]

/-- **Seventeen abandoned activations destroy the shared link.** -/
theorem abandoned_exhausts :
    ((new true .empty).run (abandonedRun 17)).exhausted = true := by
  decide +kernel

end SharedRoute

end HyperDht.Private
