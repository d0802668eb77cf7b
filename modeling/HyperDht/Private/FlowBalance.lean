import HyperDht.Private.DataAdmission

/-!
# Flow control between honest parties

A route of the standard profile on which every source runs this code. No SPLICE_OPEN is ever
in flight on it, so the destination circuit has no splice that could lose a cell, and counts
its window exactly (`Dest.Level`). In every run no check of credit fails at any of the three
parties, and what each pool has in flight is in flight on the shared link, held by the other
end, or on its way back (`flow_balanced`).
-/

namespace HyperDht.Private

namespace Link

variable {l l' : Link} {f : Frame}

theorem splices_take (h : l.total Frame.splices = 0) (ht : l.take = some (f, l')) :
    f.splices = 0 ∧ l'.total Frame.splices = 0 := by
  have hsum := total_take ht Frame.splices
  omega

end Link

/-! ## The sources -/

namespace Source

variable {s s' : Source}

/-- No source asks for a splice. -/
theorem splices_goes (h : s.link.total Frame.splices = 0) (hg : Goes s s') :
    s'.link.total Frame.splices = 0 := by
  have hclose : ∀ s : Source, s.link.total Frame.splices = 0 →
      s.close.link.total Frame.splices = 0 := by
    intro s h
    unfold close
    split
    · exact h
    · exact Nat.le_zero.mp ((s.link.total_destroy_le _).trans h.le)
  refine hg.1.keeps (P := fun s => s.link.total Frame.splices = 0) (fun {s s'} hm h => ?_) h
  cases hm with
  | quiet => exact h
  | @send st f hs =>
    have hf : f.splices = 0 := by cases hs <;> rfl
    unfold sendOut
    split
    · exact h
    · split
      · exact hclose _ h
      · show (s.link.enqueue f).total Frame.splices = 0
        rw [Link.total_enqueue, h, hf]
  | close => exact hclose s h
  | fault => exact h

theorem splices_step (h : s.link.total Frame.splices = 0) (hs : s.Sane) (ev : SourceEvent) :
    (s.step ev).link.total Frame.splices = 0 := by
  rcases step_cases hs ev with hg | ⟨l, he, -, hl, hframes⟩
  · exact splices_goes h hg
  · rw [he]
    show l.total Frame.splices = 0
    rw [hl.total, hframes, ← hs.single.total]
    exact h

theorem splices_start (spliced : Bool) : (start spliced).link.total Frame.splices = 0 := by
  cases spliced <;> rfl

end Source

/-! ## The destination -/

namespace Dest

variable {d d' : Dest} {f : Frame}

/-- The window of the circuit adds up, and none of its streams is a splice. -/
structure Level (d : Dest) : Prop where
  credit : d.closed = false → d.creditSum = circuitWindow
  splices : ∀ id b, d.streams.get? id ≠ some (.spliced b)

theorem level_new (others : Nat) : (new others).Level := ⟨fun _ => rfl, fun _ _ => nofun⟩

theorem level_gone (h : d.Gone) : d.Level :=
  ⟨fun hc => absurd (hc.symm.trans h.closed) (by decide), fun id b hb => by rw [h.streams] at hb; cases hb⟩

theorem Level.setLink (h : d.Level) (l : Link) : Level { d with link := l } := ⟨h.credit, h.splices⟩

theorem Level.noSplice (h : d.Level) (hs : NoSplice d d') (id : Nat) (b : Bool) :
    d'.streams.get? id ≠ some (.spliced b) := by
  intro hb
  obtain ⟨b', hb'⟩ := hs id b hb
  exact h.splices id b' hb'

theorem Level.flows (h : d.Level) (ho : d.Open) (hf : Flows 0 d d') : d'.Level := by
  rcases hf with hs | ⟨-, hf⟩
  · exact level_gone hs.gone
  · have hsum := hf.credit
    have hfull := h.credit ho.live
    exact ⟨fun _ => by omega, h.noSplice hf.splices⟩

theorem Level.step (h : d.Level) (hd : d.Gone ∨ d.Open) {ev : DestEvent}
    (hev : ev.isReceive = false) : (d.step ev).Level := by
  rcases hd with hg | ho
  · exact level_gone (hg.step ev)
  · rcases step_cases ho hev with hf | ⟨n, he⟩ | ⟨lev, -, he⟩
    · exact h.flows ho hf
    · exact he ▸ ⟨h.credit, h.splices⟩
    · exact he ▸ h.setLink _

/-- A frame that asks for no splice comes for a logical stream, and its cell is kept. -/
theorem Level.receive (h : d.Level) (hd : d.Gone ∨ d.Open) (now : Int) (hf : f.splices = 0)
    (a : Acceptance) : (receive now d (.frame f) a).Level := by
  rcases hd with hg | ho
  · rw [show Dest.receive now d (.frame f) a = d from if_pos hg.closed]
    exact h
  · cases hdec : decodeLogical (.frame f) with
    | none =>
      rw [receive_undecoded ho now hdec a]
      exact level_gone (shut_destroy (ho.fault .decode)).gone
    | some f' =>
      obtain rfl := Payload.frame.inj (decodeLogical_eq_some hdec).1
      have havoid : d.Avoids f := fun _ b hb => absurd hb (h.splices _ b)
      rcases takes_receive ho now hdec havoid a with he | ⟨-, ht⟩
      · exact level_gone he.gone
      · have hsum := ht.credit
        have hfull := h.credit ho.live
        exact ⟨fun _ => by omega, h.noSplice (ht.splices hf)⟩

end Dest

/-! ## The whole route -/

namespace FlowRoute

variable {s : FlowRoute} {e' : Entry} {id : Nat} {src : Source}

/-- The invariant of a route on which every source is honest. -/
structure Level (s : FlowRoute) : Prop where
  sources : ∀ id src, s.sources.get? id = some src → src.link.total Frame.splices = 0
  entry : s.entry.link.total Frame.splices = 0
  dest : s.dest.Level
  fair : ∀ g ∈ s.entry.faults, g.ofCredit = false

theorem level_new (spliced : Bool) (others : Nat) : (new spliced others).Level where
  sources _ _ hs := by cases hs
  entry := rfl
  dest := Dest.level_new others
  fair _ hg := absurd hg List.not_mem_nil

theorem fair_sound {e : Entry} (h : ∀ g ∈ e.faults, g.ofCredit = false) (hs : Entry.Sound e e') :
    ∀ g ∈ e'.faults, g.ofCredit = false := by
  obtain ⟨fs, he, hfs⟩ := hs
  intro g hg
  rw [he] at hg
  exact (List.mem_append.mp hg).elim (h g) (hfs g)

theorem splices_admits {e : Entry} (h : e.link.total Frame.splices = 0) (ha : Entry.Admits 0 e e') :
    e'.link.total Frame.splices = 0 := Nat.le_zero.mp (ha.splices.trans h.le)

theorem Level.setEntry (h : s.Level) (hlink : e'.link.total Frame.splices = 0)
    (hfair : ∀ g ∈ e'.faults, g.ofCredit = false) : Level { s with entry := e' } :=
  ⟨h.sources, hlink, h.dest, hfair⟩

theorem Level.setSource (h : s.Level) (hsrc : src.link.total Frame.splices = 0) :
    Level { s with sources := s.sources.set id src } := by
  refine ⟨fun id' src' h' => ?_, h.entry, h.dest, h.fair⟩
  rcases JsMap.get?_set_cases h' with ⟨-, rfl⟩ | ⟨-, h'⟩
  · exact hsrc
  · exact h.sources id' src' h'

variable {honest : Nat → Bool}

theorem Level.activate (h : s.Level) (hb : s.Balanced) (readable : Bool) :
    (s.activate honest readable).Level := by
  have hsound : Entry.Sound s.entry (s.activate honest readable).entry := (hb.activate readable).2
  have hfair := fair_sound h.fair hsound
  have hlink := splices_admits h.entry
    (Entry.admits_own hb.trunk.entry (show Entry.own (.activate readable) = true from rfl))
  change (s.entry.activate readable).1.link.total Frame.splices = 0 at hlink
  unfold FlowRoute.activate at hfair ⊢
  split
  · next entry he =>
    rw [he] at hlink hfair
    exact h.setEntry hlink hfair
  · next entry id he =>
    rw [he] at hlink hfair
    have hentry := h.setEntry hlink hfair
    cases honest id with
    | false => exact hentry
    | true => exact hentry.setSource (Source.splices_start _)

theorem Level.fromSource (h : s.Level) (hb : s.Balanced) (now : Int) (id : Nat)
    (udx : Option (Nat × Nat)) : (s.fromSource now id udx).Level := by
  have hfair := fair_sound h.fair (hb.fromSource now id udx).2
  unfold FlowRoute.fromSource at hfair ⊢
  split
  · exact h
  · next src hsrc =>
    rw [hsrc] at hfair
    dsimp only at hfair
    split
    · exact h
    · next f link htake =>
      rw [htake] at hfair
      obtain ⟨hf, hlink⟩ := Link.splices_take (h.sources id src hsrc) htake
      have hadm := Entry.admits_fromSource hb.trunk.entry now id (.frame f) udx
      change Entry.Admits f.splices _ _ at hadm
      rw [hf] at hadm
      exact (h.setEntry (splices_admits h.entry hadm) hfair).setSource hlink

theorem Level.fromDest (h : s.Level) (hb : s.Balanced) (now : Int) : (s.fromDest now).Level := by
  have hfair := fair_sound h.fair (hb.fromDest now).2
  unfold FlowRoute.fromDest at hfair ⊢
  split
  · exact h
  · next f link htake =>
    rw [htake] at hfair
    have hentry := h.setEntry (splices_admits h.entry
      (Entry.admits_receive hb.trunk.entry now (.frame f))) hfair
    exact ⟨hentry.sources, hentry.entry, h.dest.setLink link, hentry.fair⟩

theorem Level.toSource (h : s.Level) (hb : s.Balanced) (now : Int) (id : Nat) :
    (s.toSource now id).Level := by
  unfold FlowRoute.toSource
  split
  · next src leg hsrc hleg =>
    split
    · exact h
    · next f l htake =>
      obtain ⟨s₁, ht, hg⟩ := Source.receive_reads (hb.sane id src hsrc) now f
      have hentry : Level { s with entry := { s.entry with links := s.entry.links.set id l } } :=
        h.setEntry h.entry h.fair
      rw [Entry.step_legTake hleg htake]
      exact hentry.setSource (Source.splices_goes (ht.link ▸ h.sources id src hsrc) hg)
  · exact h

theorem Level.toDest (h : s.Level) (hb : s.Balanced) (now : Int) (a : Acceptance) :
    (s.toDest now a).Level := by
  unfold FlowRoute.toDest
  split
  · exact h
  · next f l htake =>
    have he : s.entry.step (.link .take) = { s.entry with link := l } := by
      show ({ s.entry with link := (s.entry.link.take.map Prod.snd).getD s.entry.link } : Entry) = _
      rw [htake]
      rfl
    obtain ⟨hf, hlink⟩ := Link.splices_take h.entry htake
    rw [he]
    exact ⟨h.sources, hlink, h.dest.receive hb.trunk.dest now hf a, h.fair⟩

/-- **A step of honest parties asks for no splice and fails no check of credit.** -/
theorem Level.step (h : s.Level) (hb : s.Balanced) (ev : FlowEvent) :
    (s.step (fun _ => true) ev).Level := by
  cases ev with
  | activate readable => exact h.activate hb readable
  | entry ev =>
    by_cases hev : Entry.own ev = true
    · rw [step_entry hev]
      exact h.setEntry (splices_admits h.entry (Entry.admits_own hb.trunk.entry hev))
        (fair_sound h.fair (hb.entry hev).2)
    · rw [step_entry_read hev]
      exact h
  | fromSource now id udx => exact h.fromSource hb now id udx
  | forged now id payload udx =>
    rw [step_forged_honest rfl]
    exact h
  | fromDest now => exact h.fromDest hb now
  | source id ev =>
    cases hsrc : s.sources.get? id with
    | none =>
      rw [step_source_none hsrc]
      exact h
    | some src =>
      rw [step_source hsrc]
      exact h.setSource (Source.splices_step (h.sources id src hsrc) (hb.sane id src hsrc) ev)
  | toSource now id => exact h.toSource hb now id
  | dest ev =>
    cases hev : ev.isReceive with
    | true =>
      rw [step_dest_receive hev]
      exact h
    | false =>
      rw [step_dest hev]
      exact ⟨h.sources, h.entry, h.dest.step hb.trunk.dest hev, h.fair⟩
  | toDest now a => exact h.toDest hb now a

theorem level_run (spliced : Bool) (others : Nat) (evs : List FlowEvent) :
    (run (fun _ => true) (new spliced others) evs).Balanced ∧
      (run (fun _ => true) (new spliced others) evs).Level := by
  suffices h : ∀ s : FlowRoute, s.Balanced → s.Level →
      (run (fun _ => true) s evs).Balanced ∧ (run (fun _ => true) s evs).Level from
    h _ (balanced_new spliced others) (level_new spliced others)
  induction evs with
  | nil => exact fun s hb hl => ⟨hb, hl⟩
  | cons ev evs ih => exact fun s hb hl => ih _ (hb.step (fun _ _ _ => rfl) ev).1 (hl.step hb ev)

/-- **Flow control between honest parties is safe.** No check of credit fails at a source, at
the entry or at the destination. What a leg's record and its grant count, the source has, or is
in flight: exactly while the stream is not destroyed, and never less. While both ends of the
shared link are open, what a pool has in flight is DATA on the link, cells that the other end
holds or is about to give back, and circuit CREDIT on the link. -/
theorem flow_balanced (others : Nat) (evs : List FlowEvent) :
    let s := run (fun _ => true) (new false others) evs
    ((∀ id src, s.sources.get? id = some src → ∀ g ∈ src.faults, g.ofCredit = false) ∧
      (∀ g ∈ s.entry.faults, g.ofCredit = false) ∧ ∀ g ∈ s.dest.faults, g.ofCredit = false) ∧
    (∀ id src r, s.sources.get? id = some src → s.entry.sources.get? id = some r →
      ∃ leg l, s.entry.forwardPool.legs.get? id = some leg ∧ s.entry.links.get? id = some l ∧
        (src.stream.sendCredit + weigh (Frame.dataOf 0) src.link.frames +
            weigh (Frame.creditOf 0) l.frames ≤ r.sendCredit ∧
          (r.receiveCredit + weigh (Frame.dataOf 0) l.frames +
            weigh (Frame.creditOf 0) src.link.frames : Int) ≤ src.stream.receiveCredit ∧
          src.stream.circuitCredit + weigh Frame.uses src.link.frames +
            weigh (Frame.creditOf circuitStreamId) l.frames ≤ leg.granted) ∧
        (src.stream.destroying = false →
          r.sendCredit = src.stream.sendCredit + weigh (Frame.dataOf 0) src.link.frames +
              weigh (Frame.creditOf 0) l.frames ∧
            src.stream.receiveCredit = r.receiveCredit + weigh (Frame.dataOf 0) l.frames +
              weigh (Frame.creditOf 0) src.link.frames ∧
            leg.granted = src.stream.circuitCredit + weigh Frame.uses src.link.frames +
              weigh (Frame.creditOf circuitStreamId) l.frames)) ∧
    (s.entry.closed = false → s.dest.closed = false →
      s.entry.forwardPool.inFlight = s.entry.link.total Frame.cells +
          (s.dest.streams.total fun _ st => st.outstanding) + s.dest.returnPending +
          s.dest.link.total (Frame.creditOf circuitStreamId) ∧
        s.dest.sendPool.inFlight = s.dest.link.total Frame.cells +
          (s.entry.sources.total fun _ r => r.reverseInFlight) + s.entry.reverseReturnPending +
          s.entry.link.total (Frame.creditOf circuitStreamId)) := by
  intro s
  obtain ⟨hb, hl⟩ := level_run false others evs
  change s.Balanced at hb
  change s.Level at hl
  refine ⟨⟨hb.fair, hl.fair, hb.dest⟩, fun id src r hsrc hr => ?_, fun hc hc' => ?_⟩
  · obtain ⟨leg, l, hleg, hlink, hj⟩ := (hb.joined id src hsrc).joint r hr
    refine ⟨leg, l, hleg, hlink, ⟨hj.balances.send, hj.balances.recv, hj.balances.granted⟩,
      fun hlive => ?_⟩
    have hx := hj.exact hlive
    exact ⟨hx.send, hx.recv, hx.granted⟩
  · obtain ⟨hforth, hback⟩ := hb.trunk.exact hc hc'
    simp only [Entry.account, Dest.account, hc, hc', Bool.false_eq_true, if_false, trunk]
      at hforth hback
    have hdest : s.dest.creditSum = circuitWindow := hl.dest.credit hc'
    have hentry : s.entry.reverseSum = circuitWindow := by
      rcases hb.trunk.entry with hg | ⟨-, hsum, -⟩
      · exact absurd (hc.symm.trans hg.closed) (by decide)
      · exact hsum
    simp only [Dest.creditSum] at hdest
    simp only [Entry.reverseSum] at hentry
    exact ⟨by omega, by omega⟩

/-- A chunk each way: one is unread at the destination, the other in flight to the source. -/
def bothWays : List FlowEvent :=
  [.activate true, .entry (.link .nextSend), .toDest 0 ⟨true, none, true⟩,
    .source 2 (.write 0 [1, 2, 3]), .source 2 .nextSend, .fromSource 0 2 none,
    .entry (.legLink 2 .nextSend), .toSource 0 2, .source 2 (.resumed 0 true), .source 2 .nextSend,
    .fromSource 1 2 none, .entry (.link .nextSend), .toDest 2 ⟨true, none, true⟩,
    .dest (.write 2 2 [5]), .dest .nextSend, .fromDest 3]

theorem flow_balanced_bothWays :
    let s := run (fun _ => true) (new false 0) bothWays
    s.entry.forwardPool.inFlight = 1 ∧ s.dest.sendPool.inFlight = 1 ∧
      s.entry.forwardPool.inFlight = s.entry.link.total Frame.cells +
        (s.dest.streams.total fun _ st => st.outstanding) + s.dest.returnPending +
        s.dest.link.total (Frame.creditOf circuitStreamId) ∧
      ∃ src r leg l, s.sources.get? 2 = some src ∧ s.entry.sources.get? 2 = some r ∧
        s.entry.forwardPool.legs.get? 2 = some leg ∧ s.entry.links.get? 2 = some l ∧
        leg.granted = src.stream.circuitCredit + weigh Frame.uses src.link.frames +
          weigh (Frame.creditOf circuitStreamId) l.frames := by
  intro s
  obtain ⟨-, hlegs, hpools⟩ := flow_balanced 0 bothWays
  have hsrc : (s.sources.get? 2).any (fun src => !src.stream.destroying) = true := by decide +kernel
  have hrec : (s.entry.sources.get? 2).isSome = true := by decide +kernel
  obtain ⟨src, hsrc, hlive⟩ := (Option.any_eq_true _ _).mp hsrc
  obtain ⟨r, hrec⟩ := Option.isSome_iff_exists.mp hrec
  obtain ⟨leg, l, hleg, hl, -, hexact⟩ := hlegs 2 src r hsrc hrec
  obtain ⟨-, -, hgranted⟩ := hexact (by simpa using hlive)
  exact ⟨by decide +kernel, by decide +kernel, (hpools (by decide +kernel) (by decide +kernel)).1,
    src, r, leg, l, hsrc, hrec, hleg, hl, hgranted⟩

/-- The source destroys its stream, and then reads a chunk of the destination. -/
def dropped : List FlowEvent :=
  [.activate true, .entry (.link .nextSend), .toDest 0 ⟨true, none, true⟩, .dest (.write 0 2 [5]),
    .dest .nextSend, .fromDest 1, .source 2 .destroy, .entry (.legLink 2 .nextSend), .toSource 2 2]

/-- A stream that is destroyed drops the chunk and does not count it. -/
theorem not_flow_balanced : ¬ ∀ (others : Nat) (evs : List FlowEvent) (id : Nat) (src : Source)
    (r : Record) (l : Link), let s := run (fun _ => true) (new false others) evs
    s.sources.get? id = some src → s.entry.sources.get? id = some r →
      s.entry.links.get? id = some l →
        src.stream.receiveCredit = r.receiveCredit + weigh (Frame.dataOf 0) l.frames +
          weigh (Frame.creditOf 0) src.link.frames := by
  intro h
  have hrun := h 0 dropped 2
  have hoff : ((run (fun _ => true) (new false 0) dropped).sources.get? 2).any (fun src =>
      ((run (fun _ => true) (new false 0) dropped).entry.sources.get? 2).any fun r =>
        ((run (fun _ => true) (new false 0) dropped).entry.links.get? 2).any fun l =>
          decide (src.stream.receiveCredit ≠ (r.receiveCredit + weigh (Frame.dataOf 0) l.frames +
            weigh (Frame.creditOf 0) src.link.frames : Int))) = true := by
    decide +kernel
  generalize run (fun _ => true) (new false 0) dropped = s at hrun hoff
  obtain ⟨src, hsrc, hoff⟩ := (Option.any_eq_true _ _).mp hoff
  obtain ⟨r, hr, hoff⟩ := (Option.any_eq_true _ _).mp hoff
  obtain ⟨l, hl, hoff⟩ := (Option.any_eq_true _ _).mp hoff
  exact of_decide_eq_true hoff (hrun src r l hsrc hr hl)

end FlowRoute

end HyperDht.Private
