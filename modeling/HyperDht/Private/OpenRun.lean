import HyperDht.Private.OpenTurns

/-!
# Opens are answered

The guard hands the OPENs on in the order in which it reads them (`Hands`), and a destination
that takes them in that order never sees one at or below its frontier. Where the sources
open in the order of their stream ids, every OPEN that reaches the open circuit is therefore
answered, and for its own stream only (`opens_answered`); where a later source opens first,
the earlier one's OPEN destroys the circuit of all (`not_opens_answered`).
-/

namespace HyperDht.Private

/-! ## The destination's frontier -/

namespace Dest

/-- The events that bring no OPEN keep the last stream id, or close the circuit. -/
def Stays (d d' : Dest) : Prop := d'.Gone ∨ d'.Open ∧ d'.lastStreamId = d.lastStreamId

theorem lastStreamId_destroy (d : Dest) : d.destroy.lastStreamId = d.lastStreamId := by
  unfold destroy
  split <;> rfl

theorem lastStreamId_sendOut (d : Dest) (f : Frame) : (d.sendOut f).lastStreamId = d.lastStreamId := by
  unfold sendOut
  split
  · rfl
  · split
    · exact d.lastStreamId_destroy
    · rfl

theorem lastStreamId_consumed (d : Dest) (amount : Nat) (flush : Bool) :
    (d.consumed amount flush).lastStreamId = d.lastStreamId := by
  unfold consumed
  split
  · rfl
  · dsimp only
    split
    · rfl
    · split
      · rfl
      · split
        · rfl
        · exact lastStreamId_sendOut _ _

theorem lastStreamId_modify (d : Dest) (id : Nat) (f : RouteStream → RouteStream) :
    (d.modify id f).lastStreamId = d.lastStreamId := by
  unfold modify
  split <;> rfl

theorem lastStreamId_releaseWith {distribute : Dest → Dest × Bool}
    (hd : ∀ d, (distribute d).1.lastStreamId = d.lastStreamId) (d : Dest) (id : Nat) :
    (releaseWith distribute d id).1.lastStreamId = d.lastStreamId := by
  unfold releaseWith
  split
  · rfl
  · split
    · rfl
    · dsimp only
      split
      · rfl
      · split
        · rfl
        · exact hd _

theorem lastStreamId_grantCircuit (now : Int) (id amount : Nat) (d : Dest) :
    (grantCircuit now id amount d).1.lastStreamId = d.lastStreamId := by
  have htake : ∀ s, (takeGrant now d id s).1.lastStreamId = d.lastStreamId := by
    intro s
    have hrel : (releaseWith (fun d => (d, false)) (d.setStream id s) id).1.lastStreamId =
        d.lastStreamId := lastStreamId_releaseWith (fun _ => rfl) _ id
    have hwake := lastStreamId_modify (d.setStream id s) id .wakeWriter
    unfold takeGrant
    dsimp only
    split
    · next d' he =>
      split at he
      · rw [he] at hrel
        exact hrel
      · cases he
    · next d' he =>
      have hlast : d'.lastStreamId = d.lastStreamId := by
        split at he
        · rw [he] at hrel
          exact hrel
        · cases he
          exact hwake
      split
      · exact hlast
      · exact (lastStreamId_modify _ _ _).trans hlast
  unfold grantCircuit
  split
  · rfl
  · split
    · rfl
    · split
      · rfl
      · exact htake _

theorem lastStreamId_distribute (now : Int) (d : Dest) :
    (distribute now d).1.lastStreamId = d.lastStreamId :=
  Host.distribute_frame (H := host now) (g := lastStreamId) (fun _ _ => rfl)
    (lastStreamId_grantCircuit now) _ now d

theorem lastStreamId_requestCircuit (now : Int) (d : Dest) (id : Nat) :
    (requestCircuit now d id).1.lastStreamId = d.lastStreamId := by
  unfold requestCircuit
  split
  · rfl
  · split
    · rfl
    · dsimp only
      split
      · rfl
      · exact lastStreamId_distribute now _
      · rfl

theorem lastStreamId_failStream (d : Dest) (id : Nat) (f : StreamFault) :
    (d.failStream id f).lastStreamId = d.lastStreamId :=
  lastStreamId_modify _ _ _

theorem lastStreamId_receiveData (d : Dest) (id : Nat) (s : RouteStream) (chunk : List UInt8) :
    (d.receiveData id s chunk).lastStreamId = d.lastStreamId := by
  unfold receiveData
  split
  · exact d.lastStreamId_consumed 1 false
  · split
    · exact (lastStreamId_failStream _ _ _).trans (d.lastStreamId_consumed 1 false)
    · split <;> rfl

theorem lastStreamId_grantStream (now : Int) (d : Dest) (id : Nat) (s : RouteStream) (amount : Nat) :
    (grantStream now d id s amount).lastStreamId = d.lastStreamId := by
  have hreq := lastStreamId_requestCircuit now
    (d.setStream id { s with sendCredit := s.sendCredit + amount }) id
  unfold grantStream
  split
  · rfl
  · split
    · exact lastStreamId_failStream _ _ _
    · dsimp only
      split
      · next d' he =>
        split at he
        · rw [he] at hreq
          exact (lastStreamId_modify _ _ _).trans hreq
        · cases he
      · next d' he =>
        split at he
        · rw [he] at hreq
          exact (lastStreamId_modify _ _ _).trans hreq
        · cases he
          exact lastStreamId_modify _ _ _

theorem lastStreamId_deliver (now : Int) (d : Dest) (id : Nat) (st : DestStream) (body : Body) :
    (deliver now d id st body).lastStreamId = d.lastStreamId := by
  cases st with
  | logical s =>
    cases body with
    | data chunk => exact lastStreamId_receiveData d id s chunk
    | fin | reset => rfl
    | credit amount => exact lastStreamId_grantStream now d id s amount
    | openStream | demand | release | spliceOpen | spliceReady => exact lastStreamId_failStream _ _ _
  | spliced b => cases body <;> rfl

theorem lastStreamId_receiveCharged (now : Int) (d : Dest) (f : Frame) :
    (receiveCharged now d f).lastStreamId = d.lastStreamId := by
  unfold receiveCharged
  split
  · exact lastStreamId_deliver now d _ _ _
  · split
    · split
      · exact d.lastStreamId_consumed 1 false
      · rfl
    · split
      · rfl
      · exact lastStreamId_destroy _

variable {d d' : Dest}

theorem Flows.stays {δ : Int} (h : Flows δ d d') : Stays d d' :=
  h.imp Shut.gone fun ⟨ho, hf⟩ => ⟨ho, hf.lastStreamId⟩

theorem stays_receiveCharged (h : d.Open) (now : Int) {f : Frame} (hid : f.streamId ≠ circuitStreamId)
    (hdata : f.body.isData = false) (hpos : ∀ n, f.body = .credit n → 0 < n) :
    Stays d (receiveCharged now d f) :=
  (takes_receiveCharged h now hid hdata hpos).imp Ended.gone fun ⟨ho, _⟩ =>
    ⟨ho, lastStreamId_receiveCharged now d f⟩

/-- DATA is charged, whatever stream it comes for. -/
theorem stays_receiveData (h : d.Open) (now : Int) (hne : d.receiveCredit ≠ 0) {id : Nat}
    {chunk : List UInt8} (hid : id ≠ circuitStreamId) :
    Stays d (receiveCharged now { d with receiveCredit := d.receiveCredit - 1 } ⟨id, .data chunk⟩) := by
  by_cases havoid : d.Avoids ⟨id, .data chunk⟩
  · exact (takes_receiveData_charged h now hne hid havoid).imp Ended.gone fun ⟨ho, _⟩ =>
      ⟨ho, lastStreamId_receiveCharged now _ _⟩
  · -- the raw stream of a splice takes none: the cell is lost, and nothing else happens
    unfold Avoids at havoid
    push Not at havoid
    obtain ⟨-, b, hb, -⟩ := havoid
    refine .inr ⟨?_, lastStreamId_receiveCharged now _ _⟩
    unfold receiveCharged
    rw [show ({ d with receiveCredit := d.receiveCredit - 1 } : Dest).streams.get? id = _ from hb]
    exact h.charge.fault _

theorem stays_returned (h : d.Open) (now : Int) {amount : Nat} {pool : Pool Nat}
    (hp : d.sendPool.returned amount = .ok pool) :
    (distribute now { d with sendPool := pool }).2 = false ∧
      Stays d (distribute now { d with sendPool := pool }).1 := by
  obtain ⟨hflag, ht⟩ := takes_returned h now hp
  exact ⟨hflag, ht.imp Ended.gone fun ⟨ho, _⟩ => ⟨ho, lastStreamId_distribute now _⟩⟩

theorem stays_receive (h : d.Open) (now : Int) {f : Frame} (hf : f.body.isOpen = false)
    (a : Acceptance) : Stays d (receive now d (.frame f) a) := by
  have hfail : ∀ g, Stays d (d.fault g).destroy := fun g => .inl (shut_destroy (h.fault g)).gone
  unfold receive
  rw [if_neg (by rw [h.live]; decide)]
  cases hdec : decodeLogical (.frame f) with
  | none => exact hfail _
  | some g =>
    obtain ⟨hg, -, hvalid⟩ := decodeLogical_eq_some hdec
    obtain rfl := Payload.frame.inj hg
    have hpos : ∀ n, f.body = .credit n → 0 < n := by
      intro n hn
      rw [hn] at hvalid
      simp only [validLogicalPayload, Bool.and_eq_true, bne_iff_ne] at hvalid
      omega
    obtain ⟨id, body⟩ := f
    dsimp only
    split
    · cases body with
      | credit amount =>
        dsimp only
        split
        · exact hfail _
        · next pool hp =>
          obtain ⟨hflag, hstays⟩ := stays_returned h now hp
          split
          · next d' he =>
            rw [he] at hflag
            cases hflag
          · next d' he =>
            rw [he] at hstays
            exact hstays
      | data | openStream | fin | reset | demand | release | spliceOpen | spliceReady => exact hfail _
    · next hid =>
      split
      · exact hfail _
      · cases body with
        | openStream | spliceOpen => cases hf
        | data chunk =>
          dsimp only
          split
          · exact hfail _
          · next hne => exact stays_receiveData h now hne hid
        | fin | reset | credit | demand | release | spliceReady =>
          exact stays_receiveCharged h now hid rfl hpos

theorem stays_step (h : d.Open) {ev : DestEvent} (hev : ev.isReceive = false) :
    Stays d (d.step ev) := by
  rcases step_cases h hev with hf | ⟨n, he⟩ | ⟨lev, -, he⟩
  · exact hf.stays
  · rw [he]
    exact .inr ⟨h.setOthers n, rfl⟩
  · rw [he]
    exact .inr ⟨h.progress lev, rfl⟩

/-! ## An OPEN that comes in order -/

theorem sendOut_room (h : d.Open) {f : Frame} (hroom : d.link.full f = false) :
    d.sendOut f = { d with link := d.link.enqueue f } := by
  unfold sendOut
  rw [if_neg (by rw [h.link]; decide), if_neg (by rw [hroom]; decide)]

/-- The pool takes a leg for each stream that the circuit admits. -/
theorem Open.add_ok (h : d.Open) {id : Nat} (hnew : d.streams.get? id = none)
    (hsize : d.activeStreams < maxRouteStreams) : ∃ pool, d.sendPool.add id = .ok pool := by
  have hle : d.sendPool.legs.size ≤ d.streams.size := JsMap.size_le_of_keys fun id leg hl => by
    obtain ⟨s, hs, -⟩ := h.legs id leg hl
    exact ⟨_, stream?_eq_some.mp hs⟩
  have hno : d.sendPool.legs.has id = false := by
    unfold JsMap.has
    rw [Option.isSome_eq_false_iff, Option.isNone_iff_eq_none]
    cases hl : d.sendPool.legs.get? id with
    | none => rfl
    | some leg =>
      obtain ⟨s, hs, -⟩ := h.legs id leg hl
      exact absurd ((stream?_eq_some.mp hs).symm.trans hnew) (by simp)
  unfold activeStreams at hsize
  refine ⟨_, if_neg ?_⟩
  rw [h.poolLive, hno]
  simp only [Bool.false_eq_true, false_or, or_false]
  omega

variable {id : Nat} {a : Acceptance}

theorem answers_openLogical (h : d.Open) (heven : id % 2 = 0) (hlast : d.lastStreamId < id)
    (hroom : d.replies .openStream = true → d.link.full ⟨id, .reset⟩ = false)
    (ha : a.accepts = true) :
    OpenRoute.Answers id d (d.openLogical id a) := by
  unfold openLogical
  rw [if_neg (by omega)]
  dsimp only
  have hnew := h.get?_new hlast
  split
  · next hlimit =>
    have hreplies : d.replies .openStream = true :=
      Bool.or_eq_true_iff.mpr (hlimit.imp_right decide_eq_true)
    rw [sendOut_room (h.setLast hlast.le) (hroom hreplies)]
    exact ⟨h.live, rfl, .inr ⟨rfl, rfl⟩⟩
  · next hlimit =>
    have hsize : d.activeStreams < maxRouteStreams :=
      Nat.lt_of_not_le fun hle => hlimit (.inr hle)
    obtain ⟨pool, hp⟩ := h.add_ok hnew hsize
    rw [hp]
    exact ⟨h.live, rfl, .inl ⟨_, hnew, rfl, .inl rfl⟩⟩

theorem answers_openSpliced (h : d.Open) (heven : id % 2 = 0) (hlast : d.lastStreamId < id)
    {down : Nat} (hdown : down ≠ 0) (hroom : d.link.full ⟨id, .reset⟩ = false)
    (ha : a.accepts = true) (hs : a.splice.isSome = true) :
    OpenRoute.Answers id d (d.openSpliced id down a) := by
  unfold openSpliced
  rw [if_neg (by omega)]
  dsimp only
  have hnew := h.get?_new hlast
  have hset := h.setLast hlast.le
  split
  · rw [sendOut_room hset hroom]
    exact ⟨h.live, rfl, .inr ⟨rfl, rfl⟩⟩
  · split
    · rw [sendOut_room hset hroom]
      exact ⟨h.live, rfl, .inr ⟨rfl, rfl⟩⟩
    · obtain ⟨udxId, hudx⟩ := Option.isSome_iff_exists.mp hs
      rw [hudx]
      dsimp only
      unfold sendOut
      rw [if_neg (by show ¬ d.link.destroyed = true; rw [h.link]; decide),
        if_neg (by show ¬ d.link.full ⟨id, .reset⟩ = true; rw [hroom]; decide)]
      exact ⟨h.live, rfl, .inl ⟨_, hnew, rfl, .inr ⟨udxId, rfl⟩⟩⟩

end Dest

/-- The guard names a raw stream of its own where it opens a splice. -/
def Frame.Sound (f : Frame) : Prop :=
  ∀ udxId, f.body = .spliceOpen udxId → udxId ≤ 0xffffffff ∧ udxId ≠ 0

namespace Dest

variable {d : Dest}

/-- **An OPEN or SPLICE_OPEN above the frontier is answered.** -/
theorem answers_receive (h : d.Open) (now : Int) {f : Frame} (hf : f.body.isOpen = true)
    (hid : Assigned f.streamId) (hsound : f.Sound) (hlast : d.lastStreamId < f.streamId)
    (hroom : d.replies f.body = true → d.link.full ⟨f.streamId, .reset⟩ = false) {a : Acceptance}
    (ha : a.accepts = true) (hs : a.splice.isSome = true) :
    (receive now d (.frame f) a).Open ∧
      OpenRoute.Answers f.streamId d (receive now d (.frame f) a) := by
  obtain ⟨hzero, heven, hlt⟩ := hid
  obtain ⟨id, body⟩ := f
  have hdec : decodeLogical (.frame ⟨id, body⟩) = some ⟨id, body⟩ := by
    refine if_pos ⟨hlt.le, ?_⟩
    cases body with
    | openStream => exact bne_iff_ne.mpr hlt.ne
    | spliceOpen down =>
      obtain ⟨hle, hne⟩ := hsound down rfl
      simp only [validLogicalPayload, Bool.and_eq_true, bne_iff_ne, decide_eq_true_eq]
      exact ⟨⟨hlt.ne, hle⟩, hne⟩
    | data | fin | reset | credit | demand | release | spliceReady => cases hf
  have hanswers : OpenRoute.Answers id d (receive now d (.frame ⟨id, body⟩) a) := by
    unfold receive
    rw [if_neg (by rw [h.live]; decide), hdec]
    dsimp only
    rw [if_neg hlt.ne, if_neg hzero]
    cases body with
    | openStream => exact answers_openLogical h heven hlast hroom ha
    | spliceOpen down => exact answers_openSpliced h heven hlast (hsound down rfl).2 (hroom rfl) ha hs
    | data | fin | reset | credit | demand | release | spliceReady => cases hf
  refine ⟨?_, hanswers⟩
  have havoid : d.Avoids ⟨id, body⟩ := fun _ _ _ => by
    cases body with
    | openStream | spliceOpen => rfl
    | data | fin | reset | credit | demand | release | spliceReady => cases hf
  rcases takes_receive h now hdec havoid a with he | ⟨ho, -⟩
  · exact absurd (he.closed.symm.trans hanswers.live) (by decide)
  · exact ho

end Dest

/-! ## The guard hands OPENs on in order -/

namespace Guard

theorem sound_forward {splices splices' : JsMap Nat Splice} {raw : Option (Nat × Nat)} {f f' : Frame}
    (hraw : raw.all (fun r => decide (r.2 ≤ 0xffffffff ∧ r.2 ≠ 0)) = true)
    (h : forward splices raw f = some (splices', f')) : f'.Sound := by
  obtain ⟨id, body⟩ := f
  intro udxId hf'
  unfold forward at h
  cases body with
  | spliceOpen prev =>
    dsimp only at h
    split at h
    · cases h
    · split at h
      · cases h
      · next up down =>
        cases h
        cases hf'
        simpa using hraw
  | spliceReady prev =>
    dsimp only at h
    split at h
    · cases h
    · split at h
      · cases h
      · cases h
        cases hf'
  | data | openStream | fin | reset | credit | demand | release =>
    cases h
    cases hf'

/-- The guard has read `read` from the entry and written `resealed` for the destination. -/
structure Hands (g : Guard) (read resealed : List Frame) : Prop where
  led : Led resealed
  sound : ∀ f ∈ resealed, f.Sound
  queues : g.closed = true ∧ g.link.sends = .empty ∨
    g.link.multiplexed = true ∧ ∃ queued,
      g.link.sends.Served Frame.streamId (fun f => f.body.isOpen) queued resealed ∧ Led queued ∧
      (∀ f ∈ queued, f.Sound) ∧ queued.map shape = read.map shape

variable {g : Guard} {read resealed : List Frame}

theorem Hands.close (h : g.Hands read resealed) (read' : List Frame) : g.close.Hands read' resealed :=
  ⟨h.led, h.sound, .inl ⟨rfl, rfl⟩⟩

theorem Hands.receive (h : g.Hands read resealed) (hopen : g.closed = false) {f : Frame}
    (hled : Led (read ++ [f])) {raw : Option (Nat × Nat)}
    (hraw : raw.all (fun r => decide (r.2 ≤ 0xffffffff ∧ r.2 ≠ 0)) = true) :
    (g.receive raw f).Hands (read ++ [f]) resealed ∧ (g.receive raw f).link.wire = g.link.wire := by
  unfold Guard.receive
  dsimp only
  split
  · exact ⟨⟨h.led, h.sound, .inl ⟨rfl, rfl⟩⟩, rfl⟩
  · split
    · exact ⟨⟨h.led, h.sound, .inl ⟨rfl, rfl⟩⟩, rfl⟩
    · next splices f' hf =>
      split
      · exact ⟨⟨h.led, h.sound, .inl ⟨rfl, rfl⟩⟩, rfl⟩
      · rcases h.queues with ⟨hc, -⟩ | ⟨hm, queued, hserved, -, hsound, hshape⟩
        · exact absurd (hc.symm.trans hopen) (by decide)
        · have hshape' : (queued ++ [f']).map shape = (read ++ [f]).map shape := by
            rw [List.map_append, List.map_append, hshape, List.map_singleton, List.map_singleton,
              shape_forward hf]
          have hled' := hled.congr hshape'
          have hqueue : g.link.queueOf f' = f'.streamId := by
            unfold Link.queueOf
            rw [hm, if_pos rfl]
          refine ⟨⟨h.led, h.sound, .inr ⟨hm, queued ++ [f'], ?_, hled', fun f₁ hf₁ => ?_, hshape'⟩⟩,
            rfl⟩
          · show (g.link.sends.enqueue (g.link.queueOf f') f').Served _ _ _ _
            rw [hqueue]
            exact hserved.enqueue f' fun ho => (hled'.fresh ho).1
          · rcases List.mem_append.mp hf₁ with hf₁ | hf₁
            · exact hsound f₁ hf₁
            · rw [List.mem_singleton.mp hf₁]
              exact sound_forward hraw hf

theorem Hands.sealNext (h : g.Hands read resealed) :
    ∃ more, g.sealNext.Hands read (resealed ++ more) ∧
      g.sealNext.link.wire = g.link.wire ++ more := by
  unfold Guard.sealNext
  cases hn : g.link.sends.next sendQuantum with
  | none =>
    refine ⟨[], ?_, (List.append_nil _).symm⟩
    rw [List.append_nil]
    exact h
  | some next =>
    obtain ⟨k, f, r⟩ := next
    dsimp only
    split
    · refine ⟨[], ?_, (List.append_nil _).symm⟩
      rw [List.append_nil]
      exact ⟨h.led, h.sound, .inl ⟨rfl, rfl⟩⟩
    · rcases h.queues with ⟨-, hempty⟩ | ⟨hm, queued, hserved, hled, hsound, hshape⟩
      · rw [hempty] at hn
        cases hn
      · have hserved' := (hserved.next hn).2
        have hnext : g.link.nextSend = { g.link with sends := r, wire := g.link.wire ++ [f] } := by
          unfold Link.nextSend
          rw [hn]
        have hmem : f ∈ queued := by
          have hjobs := hserved'.inOrder f.streamId
          have hf : f ∈ queued.filter fun f₁ => f₁.streamId = f.streamId := by
            rw [hjobs, List.filter_append]
            exact List.mem_append_left _ (List.mem_append_right _ (by simp))
          exact (List.mem_filter.mp hf).1
        rw [hnext]
        refine ⟨[f], ⟨hled.served hserved', fun f₁ hf₁ => ?_,
          .inr ⟨hm, queued, hserved', hled, hsound, hshape⟩⟩, rfl⟩
        rcases List.mem_append.mp hf₁ with hf₁ | hf₁
        · exact h.sound f₁ hf₁
        · exact hsound f₁ (List.mem_singleton.mp hf₁ ▸ hmem)

theorem Hands.setLink (h : g.Hands read resealed) {l : Link}
    (hm : l.multiplexed = g.link.multiplexed) (hs : l.sends = g.link.sends) :
    Hands { g with link := l } read resealed := by
  refine ⟨h.led, h.sound, ?_⟩
  rcases h.queues with ⟨hc, hempty⟩ | ⟨hm', queued, hserved, hrest⟩
  · exact .inl ⟨hc, hs.trans hempty⟩
  · exact .inr ⟨hm.trans hm', queued, hs.symm ▸ hserved, hrest⟩

end Guard

/-! ## Runs of the parties -/

namespace SharedRoute

/-- The cells on their way: `sealed` by the entry, `read` and `resealed` by the guard,
and `arrived` at the destination. -/
structure InTurn (s : SharedRoute) (sealed read resealed arrived : List Frame) : Prop where
  entry : s.entry.Talks s.opened sealed
  led : Led sealed
  wire : sealed = read ++ s.entry.link.wire
  guard : s.guard.Hands read resealed
  guardWire : resealed = arrived ++ s.guard.link.wire

theorem inTurn_new (spliced : Bool) (memory : MemoryTree) : (new spliced memory).InTurn [] [] [] [] where
  entry := Entry.talks_new spliced
  led := led_nil
  wire := rfl
  guard := ⟨led_nil, fun _ h => absurd h List.not_mem_nil,
    .inr ⟨rfl, [], Ring.served_empty _ _, led_nil, fun _ h => absurd h List.not_mem_nil, rfl⟩⟩
  guardWire := rfl

variable {s : SharedRoute} {sealed read resealed arrived : List Frame}

theorem InTurn.seal (h : s.InTurn sealed read resealed arrived) :
    ∃ sealed', s.sealNext.InTurn sealed' read resealed arrived := by
  unfold sealNext
  cases hn : s.entry.link.sends.next sendQuantum with
  | none => exact ⟨sealed, h⟩
  | some next =>
    obtain ⟨k, f, r⟩ := next
    dsimp only
    split
    · obtain ⟨htalks, hwire⟩ := h.entry.destroy
      exact ⟨sealed, htalks, h.led, h.wire.trans (congrArg (read ++ ·) hwire.symm), h.guard,
        h.guardWire⟩
    · obtain ⟨hled, htalks⟩ := h.entry.next hn
      have hnext : s.entry.link.nextSend =
          { s.entry.link with sends := r, wire := s.entry.link.wire ++ [f] } := by
        unfold Link.nextSend
        rw [hn]
      rw [hnext]
      refine ⟨sealed ++ [f], htalks, hled, ?_, h.guard, h.guardWire⟩
      show sealed ++ [f] = read ++ (s.entry.link.wire ++ [f])
      rw [h.wire, List.append_assoc]

theorem InTurn.guardReads (h : s.InTurn sealed read resealed arrived) {raw : Option (Nat × Nat)}
    (hraw : raw.all (fun r => decide (r.2 ≤ 0xffffffff ∧ r.2 ≠ 0)) = true) :
    ∃ read', (s.guardReads raw).InTurn sealed read' resealed arrived := by
  unfold SharedRoute.guardReads
  split
  · exact ⟨read, h⟩
  · next hopen =>
    unfold Link.take
    cases hw : s.entry.link.wire with
    | nil => exact ⟨read, h⟩
    | cons f wire =>
      have hwire : sealed = read ++ [f] ++ wire := by
        rw [h.wire, hw, List.append_assoc]
        rfl
      have hled : Led (read ++ [f]) := (hwire ▸ h.led : Led _).initial
      obtain ⟨hhands, hgw⟩ := h.guard.receive (by simpa using hopen) hled hraw
      exact ⟨read ++ [f], h.entry.setLink rfl rfl rfl, h.led, hwire, hhands,
        h.guardWire.trans (congrArg (arrived ++ ·) hgw.symm)⟩

theorem InTurn.step (h : s.InTurn sealed read resealed arrived) {ev : RouteEvent}
    (hev : ev.onTheWay = true) :
    ∃ sealed' read' resealed', (s.step ev).InTurn sealed' read' resealed' arrived := by
  cases ev with
  | source call => cases hev
  | destinationReads => cases hev
  | entrySeals =>
    obtain ⟨sealed', h'⟩ := h.seal
    exact ⟨sealed', read, resealed, h'⟩
  | entrySettles data =>
    refine ⟨sealed, read, resealed, h.entry.setLink ?_ ?_ ?_, h.led, ?_, h.guard, h.guardWire⟩
    all_goals cases data
    all_goals first | rfl | exact h.wire
  | entryCloses =>
    obtain ⟨htalks, hwire⟩ := h.entry.destroy
    exact ⟨sealed, read, resealed, htalks, h.led, h.wire.trans (congrArg (read ++ ·) hwire.symm),
      h.guard, h.guardWire⟩
  | guardReads raw =>
    obtain ⟨read', h'⟩ := h.guardReads hev
    exact ⟨sealed, read', resealed, h'⟩
  | guardSeals =>
    obtain ⟨more, hhands, hwire⟩ := h.guard.sealNext
    refine ⟨sealed, read, resealed ++ more, h.entry, h.led, h.wire, hhands, ?_⟩
    show resealed ++ more = arrived ++ s.guard.sealNext.link.wire
    rw [hwire, h.guardWire, List.append_assoc]
  | guardSettles data =>
    refine ⟨sealed, read, resealed, h.entry, h.led, h.wire, h.guard.setLink ?_ ?_, ?_⟩
    all_goals cases data
    all_goals first | rfl | exact h.guardWire
  | guardSpliceEnds id =>
    exact ⟨sealed, read, resealed, h.entry, h.led, h.wire,
      ⟨h.guard.led, h.guard.sound, h.guard.queues⟩, h.guardWire⟩
  | guardCloses => exact ⟨sealed, read, resealed, h.entry, h.led, h.wire, h.guard.close read, h.guardWire⟩

/-- The progress of the links leaves the ledgers at the destination. -/
theorem destination_step {ev : RouteEvent} (hev : ev.onTheWay = true) :
    (s.step ev).destination = s.destination := by
  cases ev with
  | source call => cases hev
  | destinationReads => cases hev
  | entrySeals =>
    show s.sealNext.destination = _
    unfold sealNext
    split
    · rfl
    · dsimp only
      split <;> rfl
  | guardReads raw =>
    show (s.guardReads raw).destination = _
    unfold SharedRoute.guardReads
    split
    · rfl
    · split <;> rfl
  | entrySettles data | entryCloses | guardSeals | guardSettles data | guardSpliceEnds id
    | guardCloses => rfl

/-- What arrives is an initial part of what the guard has written. -/
theorem InTurn.arrives (h : s.InTurn sealed read resealed arrived) {f : Frame} {link : Link}
    (ht : s.guard.link.take = some (f, link)) :
    Led (arrived ++ [f]) ∧ f.Sound ∧
      s.destinationReads.InTurn sealed read resealed (arrived ++ [f]) := by
  unfold destinationReads
  rw [ht]
  unfold Link.take at ht
  split at ht
  · cases ht
  · next f₀ wire hw =>
    cases ht
    have hwire : resealed = arrived ++ [f] ++ wire := by
      rw [h.guardWire, hw, List.append_assoc]
      rfl
    refine ⟨(hwire ▸ h.guard.led : Led _).initial, h.guard.sound f ?_, h.entry, h.led, h.wire,
      h.guard.setLink rfl rfl, hwire⟩
    rw [hwire]
    exact List.mem_append_left _ (List.mem_append_right _ List.mem_cons_self)

end SharedRoute

namespace Dest

/-- The destination after the frames `arrived`: closed, or open with its frontier at the
last OPEN of them. -/
def Reached (d : Dest) (arrived : List Frame) : Prop :=
  d.Gone ∨ d.Open ∧ (d.lastStreamId = 0 ∨ d.lastStreamId ∈ openIds arrived)

theorem reached_new (others : Nat) : (new others).Reached [] := by
  rcases accounted_new others with hg | ⟨ho, -⟩
  · exact .inl hg
  · exact .inr ⟨ho, .inl rfl⟩

variable {d d' : Dest} {arrived : List Frame}

theorem Stays.reached (h : Stays d d') (hlast : d.lastStreamId = 0 ∨ d.lastStreamId ∈ openIds arrived) :
    d'.Reached arrived :=
  h.imp_right fun ⟨ho, hid⟩ => ⟨ho, by rw [hid]; exact hlast⟩

theorem Reached.step (h : d.Reached arrived) {ev : DestEvent} (hev : ev.isReceive = false) :
    (d.step ev).Reached arrived := by
  rcases h with hg | ⟨ho, hlast⟩
  · exact .inl (hg.step ev)
  · exact (stays_step ho hev).reached hlast

/-- The next frame, unless it is an OPEN that is not answered. -/
theorem Reached.receive (h : d.Reached arrived) (now : Int) (f : Frame) (a : Acceptance)
    (hanswered : f.body.isOpen = true → d.Open → (receive now d (.frame f) a).Open ∧
      OpenRoute.Answers f.streamId d (receive now d (.frame f) a)) :
    (receive now d (.frame f) a).Reached (arrived ++ [f]) := by
  rcases h with hg | ⟨ho, hlast⟩
  · exact .inl (hg.step (.receive now (.frame f) a))
  · cases hf : f.body.isOpen with
    | true =>
      obtain ⟨ho', hans⟩ := hanswered hf ho
      refine .inr ⟨ho', .inr ?_⟩
      rw [hans.last, openIds_append, LinkLedgers.openIds_singleton, if_pos hf]
      exact List.mem_append_right _ List.mem_cons_self
    | false =>
      refine (stays_receive ho now hf a).reached (hlast.imp_right fun hmem => ?_)
      rw [openIds_append]
      exact List.mem_append_left _ hmem

end Dest

namespace OpenRoute

/-- The invariant of a run of honest sources that open in order. -/
def Ordered (s : OpenRoute) : Prop :=
  s.way.destination.Funded ∧ ∃ sealed read resealed arrived,
    s.way.InTurn sealed read resealed arrived ∧ s.dest.Reached arrived

theorem ordered_new (spliced : Bool) (memory : MemoryTree) (others : Nat) :
    (new spliced memory others).Ordered :=
  ⟨LinkLedgers.funded_new memory, [], [], [], [], SharedRoute.inTurn_new spliced memory,
    Dest.reached_new others⟩

variable {s : OpenRoute}

/-- An OPEN that reaches the open circuit is above its frontier. -/
theorem answers_reads {sealed read resealed arrived : List Frame} (hfunded : s.way.destination.Funded)
    (h : s.way.InTurn sealed read resealed arrived) (hr : s.dest.Reached arrived) {now : Int}
    {a : {a : Acceptance // a.accepts = true ∧ a.splice.isSome = true}}
    (ho : s.Orderly (.reads now a)) {f : Frame} {link : Link}
    (ht : s.way.guard.link.take = some (f, link)) (hf : f.body.isOpen = true)
    (hopen : s.dest.Open) :
    s.way.destinationReads.destination.destroyed = false ∧
      (s.dest.receive now (.frame f) a.val).Open ∧
      Answers f.streamId s.dest (s.dest.receive now (.frame f) a.val) := by
  obtain ⟨hlive, hleft, hroom⟩ := ho (f, link) ht hf hopen.live
  obtain ⟨hled, hsound, -⟩ := h.arrives ht
  have hpaid : s.way.destinationReads.destination.destroyed = false := by
    unfold SharedRoute.destinationReads
    rw [ht]
    exact hfunded.arrives hlive hleft _
  obtain ⟨-, habove, hid⟩ := hled.fresh hf
  refine ⟨hpaid, Dest.answers_receive hopen now hf hid hsound ?_ hroom a.property.1 a.property.2⟩
  rcases hr with hg | ⟨-, hlast | hlast⟩
  · exact absurd (hg.closed.symm.trans hopen.live) (by decide)
  · rw [hlast]
    exact Nat.pos_of_ne_zero hid.1
  · exact habove _ hlast

theorem Ordered.reads (h : s.Ordered) {now : Int}
    {a : {a : Acceptance // a.accepts = true ∧ a.splice.isSome = true}}
    (ho : s.Orderly (.reads now a)) : (s.reads now a.val).Ordered := by
  obtain ⟨hfunded, sealed, read, resealed, arrived, hway, hdest⟩ := h
  unfold OpenRoute.reads
  cases ht : s.way.guard.link.take with
  | none => exact ⟨hfunded, sealed, read, resealed, arrived, hway, hdest⟩
  | some next =>
    obtain ⟨f, link⟩ := next
    refine ⟨?_, sealed, read, resealed, arrived ++ [f], (hway.arrives ht).2.2, ?_⟩
    · show s.way.destinationReads.destination.Funded
      unfold SharedRoute.destinationReads
      rw [ht]
      exact ((hfunded.step .cell).1.step (.payload (encodeLogical f))).1
    dsimp only
    split
    · rcases hdest with hg | ⟨hopen, -⟩
      · rw [hg.destroy]
        exact .inl hg
      · exact .inl (Dest.shut_destroy hopen).gone
    · exact hdest.receive now f a.val fun hf hopen => (answers_reads hfunded hway hdest ho ht hf hopen).2

/-- Every event of honest sources in order keeps the OPENs in order. -/
theorem Ordered.step (h : s.Ordered) {ev : OpenEvent} (hh : s.Honest ev) (ho : s.Orderly ev) :
    (s.step ev).Ordered := by
  cases ev with
  | entry ev =>
    obtain ⟨hfunded, sealed, read, resealed, arrived, hway, hdest⟩ := h
    obtain ⟨htalks, hwire⟩ := hway.entry.step ev.property hh ho
    exact ⟨hfunded, sealed, read, resealed, arrived, ⟨htalks, hway.led,
      hway.wire.trans (congrArg (read ++ ·) hwire.symm), hway.guard, hway.guardWire⟩, hdest⟩
  | way ev =>
    obtain ⟨hfunded, sealed, read, resealed, arrived, hway, hdest⟩ := h
    obtain ⟨sealed', read', resealed', hway'⟩ := hway.step ev.property
    refine ⟨?_, sealed', read', resealed', arrived, hway', hdest⟩
    show (s.way.step ev.val).destination.Funded
    rw [SharedRoute.destination_step ev.property]
    exact hfunded
  | reads now a => exact h.reads ho
  | destination ev =>
    obtain ⟨hfunded, sealed, read, resealed, arrived, hway, hdest⟩ := h
    exact ⟨hfunded, sealed, read, resealed, arrived, hway, hdest.step ev.property⟩

theorem Ordered.answered (h : s.Ordered) {ev : OpenEvent} (ho : s.Orderly ev) : s.Answered ev := by
  cases ev with
  | entry ev => trivial
  | way ev => trivial
  | destination ev => trivial
  | reads now a =>
    rintro ⟨f, link⟩ ht hf hclosed
    obtain ⟨hfunded, sealed, read, resealed, arrived, hway, hdest⟩ := h
    rcases hdest with hg | hr
    · exact absurd (hg.closed.symm.trans hclosed) (by decide)
    · obtain ⟨hpaid, -, hans⟩ := answers_reads hfunded hway (.inr hr) ho ht hf hr.1
      unfold OpenRoute.reads
      rw [show s.way.guard.link.take = some (f, link) from ht]
      dsimp only
      rw [if_neg (by rw [hpaid]; decide)]
      exact hans

/-- **Every OPEN of honest sources that open in order is answered**, over every run of the
entry, the guard and the destination: the stream is opened, or reset alone. -/
theorem opens_answered (spliced : Bool) (memory : MemoryTree) (others : Nat) (events : List OpenEvent)
    (h : AllMeet step (fun s ev => s.Honest ev ∧ s.Orderly ev) (new spliced memory others) events) :
    AllMeet step Answered (new spliced memory others) events := by
  intro done ev hprefix
  have hdone : AllMeet step (fun s ev => s.Honest ev ∧ s.Orderly ev) (new spliced memory others) done :=
    fun done' ev' hprefix' => h done' ev' (hprefix'.trans ((List.prefix_append _ _).trans hprefix))
  have hordered : (done.foldl step (new spliced memory others)).Ordered :=
    hdone.inv (ordered_new spliced memory others) fun s ev hs hev => hs.step hev.1 hev.2
  exact hordered.answered (h done ev hprefix).2

/-- Two sources are activated, and open their streams in the order `ids`; their OPENs go all
the way. -/
def openRun (ids : List Nat) : List OpenEvent :=
  [.entry ⟨.activate true, rfl⟩, .entry ⟨.activate true, rfl⟩] ++
    ids.map (fun id => .entry ⟨.fromSource 0 id (.frame ⟨0, .openStream⟩) none, rfl⟩) ++
    ids.flatMap fun _ => [.way ⟨.entrySeals, rfl⟩, .way ⟨.guardReads none, rfl⟩,
      .way ⟨.guardSeals, rfl⟩, .reads 0 ⟨⟨true, some 9, true⟩, rfl, rfl⟩]

/-- Two opens in order, and both streams are open. -/
theorem opens_answered_two :
    AllMeet step (fun s ev => s.Honest ev ∧ s.Orderly ev) (new true .empty 0)
        (openRun [2, 4]) ∧
      AllMeet step Answered (new true .empty 0) (openRun [2, 4]) ∧
      ((openRun [2, 4]).foldl step (new true .empty 0)).dest.streams.keys = [2, 4] := by
  have h : AllMeet step (fun s ev => s.Honest ev ∧ s.Orderly ev) (new true .empty 0)
      (openRun [2, 4]) := by decide +kernel
  exact ⟨h, opens_answered true _ 0 _ h, by decide +kernel⟩

/-- **Honest sources can kill the circuit**: the later source opens first, and the OPEN of the
earlier one destroys the circuit of both. -/
theorem not_opens_answered : ¬ ∀ (spliced : Bool) (memory : MemoryTree) (others : Nat)
    (events : List OpenEvent), AllMeet step Honest (new spliced memory others) events →
      AllMeet step Answered (new spliced memory others) events := by
  intro hall
  have hhonest : AllMeet step Honest (new true .empty 0) (openRun [4, 2]) := by
    decide +kernel
  have hanswered := hall true .empty 0 _ hhonest
  -- the last event, at which the destination reads the OPEN of the earlier source
  have hlast := hanswered ((openRun [4, 2]).take 11) (.reads 0 ⟨⟨true, some 9, true⟩, rfl, rfl⟩)
    ⟨[], rfl⟩
  have htake : (((openRun [4, 2]).take 11).foldl step
      (new true .empty 0)).way.guard.link.take.map Prod.fst = some ⟨2, .openStream⟩ := by
    decide +kernel
  obtain ⟨next, hnext, hf⟩ := Option.map_eq_some_iff.mp htake
  have hlive := (hlast next hnext (by rw [hf]; rfl) (by decide +kernel)).live
  exact absurd hlive (by decide +kernel)

end OpenRoute

end HyperDht.Private
