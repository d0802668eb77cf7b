import HyperDht.Private.TrunkEnds

/-!
# Credit on a whole route

A route with its three parties: sources on legs of their own, the entry, and the
destination circuit, with every link between them. The legs that `honest` names have a
source that runs this code; on the others anything may come. In every run no check of
credit fails, neither of an honest source nor of the destination, nor of the entry on a
frame of one of them (`credit_safe`), and where nothing is closed every cell of every
window is accounted for (`windows_conserved`).
-/

namespace HyperDht.Private

/-- What a source does, or what becomes of its link. -/
inductive SourceEvent where
  | write (now : Int) (data : List UInt8)
  | resumed (now : Int) (ok : Bool)
  | final
  | read
  | destroy
  | runDestroy
  | closeStream
  | idleTimer
  | returnTimer
  | close
  | nextSend
  | selectFrom (k : Nat)
  | settle (data : Bool)
  deriving DecidableEq, Repr

namespace Source

def step (s : Source) : SourceEvent → Source
  | .write now data => write now s data
  | .resumed now ok => resumed now s ok
  | .final => s.final
  | .read => s.read
  | .destroy => s.destroy
  | .runDestroy => s.runDestroy
  | .closeStream => s.closeStream
  | .idleTimer => s.idleFired
  | .returnTimer => s.returnFired
  | .close => s.close
  | .nextSend => { s with link := s.link.nextSend }
  | .selectFrom k => { s with link := s.link.selectFrom k }
  | .settle data => { s with link := s.link.settle data }

/-- A source on its new leg, in the profile of its entry; a spliced one opens its stream. -/
def start (spliced : Bool) : Source := if spliced then new.sendOut ⟨0, .openStream⟩ else new

end Source

/-- The parties of a route, with the sources that run this code by their stream ids. -/
structure FlowRoute where
  entry : Entry
  sources : JsMap Nat Source
  dest : Dest

/-- `entry` is an event in which the entry reads nothing; the others name the reader. -/
inductive FlowEvent where
  | activate (readable : Bool)
  | entry (ev : EntryEvent)
  | fromSource (now : Int) (id : Nat) (udx : Option (Nat × Nat))
  | forged (now : Int) (id : Nat) (payload : Payload) (udx : Option (Nat × Nat))
  | fromDest (now : Int)
  | source (id : Nat) (ev : SourceEvent)
  | toSource (now : Int) (id : Nat)
  | dest (ev : DestEvent)
  | toDest (now : Int) (a : Acceptance)
  deriving DecidableEq, Repr

/-- The frame of the event is not one that an honest party has sent. -/
def FlowEvent.isForged : FlowEvent → Bool
  | .forged .. => true
  | _ => false

namespace FlowRoute

def new (spliced : Bool) (others : Nat) : FlowRoute := ⟨.new spliced, .empty, .new others⟩

/-- A source is admitted, and its leg has another end. -/
def activate (honest : Nat → Bool) (s : FlowRoute) (readable : Bool) : FlowRoute :=
  match s.entry.activate readable with
  | (entry, none) => { s with entry }
  | (entry, some id) =>
    { s with entry, sources := if honest id then s.sources.set id (.start entry.spliced) else s.sources }

/-- The entry reads the next frame of a source. -/
def fromSource (s : FlowRoute) (now : Int) (id : Nat) (udx : Option (Nat × Nat)) : FlowRoute :=
  match s.sources.get? id with
  | none => s
  | some source =>
    match source.link.take with
    | none => s
    | some (f, link) =>
      { s with
        entry := Entry.fromSource now s.entry id (.frame f) udx
        sources := s.sources.set id { source with link } }

/-- The entry reads the next frame of the destination. -/
def fromDest (s : FlowRoute) (now : Int) : FlowRoute :=
  match s.dest.link.take with
  | none => s
  | some (f, link) =>
    { s with entry := Entry.receive now s.entry (.frame f), dest := { s.dest with link } }

/-- A source reads the next frame of its leg. -/
def toSource (s : FlowRoute) (now : Int) (id : Nat) : FlowRoute :=
  match s.sources.get? id, s.entry.links.get? id with
  | some source, some leg =>
    match leg.take with
    | none => s
    | some (f, _) =>
      { s with
        entry := s.entry.step (.legLink id .take)
        sources := s.sources.set id (Source.receive now source (.frame f)) }
  | _, _ => s

/-- The destination reads the next frame of the entry. -/
def toDest (s : FlowRoute) (now : Int) (a : Acceptance) : FlowRoute :=
  match s.entry.link.take with
  | none => s
  | some (f, _) =>
    { s with
      entry := s.entry.step (.link .take)
      dest := Dest.receive now s.dest (.frame f) a }

def step (honest : Nat → Bool) (s : FlowRoute) : FlowEvent → FlowRoute
  | .activate readable => s.activate honest readable
  | .entry ev => if Entry.own ev then { s with entry := s.entry.step ev } else s
  | .fromSource now id udx => s.fromSource now id udx
  | .forged now id payload udx =>
    if honest id then s else { s with entry := Entry.fromSource now s.entry id payload udx }
  | .fromDest now => s.fromDest now
  | .source id ev =>
    match s.sources.get? id with
    | none => s
    | some source => { s with sources := s.sources.set id (source.step ev) }
  | .toSource now id => s.toSource now id
  | .dest ev => if ev.isReceive then s else { s with dest := s.dest.step ev }
  | .toDest now a => s.toDest now a

def run (honest : Nat → Bool) (s : FlowRoute) (evs : List FlowEvent) : FlowRoute :=
  evs.foldl (step honest) s

end FlowRoute

/-! ## Sources -/

namespace Source

variable {s s' : Source}

theorem faults_close (s : Source) : s.close.faults = s.faults := by
  unfold close
  split <;> rfl

theorem faults_sendOut (s : Source) (f : Frame) : (s.sendOut f).faults = s.faults := by
  unfold sendOut
  split
  · rfl
  · split
    · exact s.faults_close
    · rfl

/-- No check of credit has failed. -/
def Fair (s : Source) : Prop := ∀ g ∈ s.faults, g.ofCredit = false

theorem Fair.goes (h : s.Fair) (hg : Goes s s') : s'.Fair := by
  refine hg.1.keeps (P := Fair) (fun {s s'} hm h => ?_) h
  cases hm with
  | quiet => exact h
  | @send st f hs => exact fun g hg => h g (faults_sendOut { s with stream := st } f ▸ hg)
  | close => exact fun g hg => h g (s.faults_close ▸ hg)
  | @fault g hg =>
    intro g' hg'
    rcases List.mem_append.mp hg' with hg' | hg'
    · exact h g' hg'
    · rw [List.mem_singleton.mp hg']
      rcases hg with rfl | rfl
      · rfl
      · rfl

theorem sane_setLink (h : s.Sane) {l : Link} (hd : l.destroyed = s.link.destroyed) (hl : l.Single) :
    Sane { s with link := l } :=
  ⟨h.stream, h.credit, fun he => h.closed (hd ▸ he), hl⟩

/-- A source acts by itself, or its link progresses. -/
theorem step_cases (h : s.Sane) (ev : SourceEvent) :
    Goes s (s.step ev) ∨ ∃ l : Link, s.step ev = { s with link := l } ∧
      l.destroyed = s.link.destroyed ∧ l.Single ∧ l.frames = s.link.frames := by
  cases ev with
  | write now data => exact .inl (goes_write h now data)
  | resumed now ok => exact .inl (goes_resumed h now ok)
  | final => exact .inl (goes_final h)
  | read => exact .inl (goes_read h)
  | destroy => exact .inl (goes_destroy h)
  | runDestroy => exact .inl (goes_runDestroy h)
  | closeStream => exact .inl (goes_closeStream h)
  | idleTimer => exact .inl (goes_idleFired h)
  | returnTimer => exact .inl (goes_returnFired h)
  | close => exact .inl (goes_close h)
  | nextSend => exact .inr ⟨_, rfl, s.link.destroyed_nextSend, h.single.nextSend⟩
  | selectFrom k => exact .inr ⟨_, rfl, s.link.destroyed_selectFrom k, h.single.selectFrom k⟩
  | settle data => exact .inr ⟨_, rfl, by cases data <;> rfl, h.single.settle data⟩

/-- What a source makes of its next frame: it takes the frame, and goes on by itself. -/
theorem receive_reads (h : s.Sane) (now : Int) (f : Frame) :
    ∃ s₁, Took f s s₁ ∧ Goes s₁ (receive now s (.frame f)) := by
  cases hl : s.link.destroyed with
  | true =>
    have ht := took_dropped h (h.closed hl) f
    refine ⟨s, ht, ?_⟩
    unfold receive
    rw [if_pos hl]
    exact .refl h
  | false =>
    cases hf : decodeLogical (.frame f) with
    | none =>
      have ht := took_fail h (f := f) (g := .decode) trivial
      refine ⟨_, ht, ?_⟩
      unfold receive
      rw [if_neg (by rw [hl]; decide), hf]
      exact .refl ht.sane
    | some f' =>
      obtain rfl := Payload.frame.inj (decodeLogical_eq_some hf).1
      exact receive_takes h hl now hf

/-- A frame in flight to a source fails none of its checks of credit. -/
theorem Fair.took {f : Frame} {down : List Frame} (h : s.Fair) (hset : Settles (f :: down) s.stream)
    (ht : Took f s s') : s'.Fair := by
  intro g hg
  rcases ht.faults g hg with hg | hg
  · exact h g hg
  · obtain ⟨h₁, h₂, h₃, h₄, h₅, h₆⟩ := hset.accepts hg
    cases g with
    | pool => exact hg.elim
    | circuitReceiveCredit => exact absurd rfl h₁
    | window => exact absurd rfl h₂
    | grantStream => exact absurd rfl h₃
    | grantCircuit => exact absurd rfl h₄
    | cancelCircuit => exact absurd rfl h₅
    | overflow => exact absurd rfl h₆
    | decode | unexpected | ended | totals => rfl

theorem sane_start (spliced : Bool) : (start spliced).Sane := by
  unfold start
  split
  · exact sane_new.sendOut _
  · exact sane_new

theorem fair_start (spliced : Bool) : (start spliced).Fair := by
  cases spliced <;> exact fun g hg => absurd hg List.not_mem_nil

end Source

/-! ## A source on a new leg -/

namespace Entry

variable {e : Entry}

/-- The balances of a leg at its start: nothing is in flight but an OPEN. -/
theorem joint_start (spliced : Bool) {leg : Leg} (hg : leg.granted = 0) (hw : leg.wanted = 0) :
    Joint { Record.new with attached := true } leg [] (.start spliced) := by
  have hframes : (Source.start spliced).link.frames = if spliced then [⟨0, .openStream⟩] else [] := by
    cases spliced <;> rfl
  have hstream : (Source.start spliced).stream = .new := by cases spliced <;> rfl
  have hweigh : ∀ w : Frame → Nat, w ⟨0, .openStream⟩ = 0 →
      weigh w (Source.start spliced).link.frames = 0 := by
    intro w h0
    rw [hframes]
    split
    · rw [weigh_cons, h0]
      rfl
    · rfl
  have hsilent : demands (Source.start spliced).link.frames = [] := by
    rw [hframes]
    cases spliced <;> rfl
  have h₁ := hweigh (Frame.dataOf 0) rfl
  have h₂ := hweigh (Frame.creditOf 0) rfl
  have h₃ := hweigh (Frame.creditOf circuitStreamId) rfl
  have h₄ := hweigh Frame.uses rfl
  refine ⟨⟨?_, ?_, ?_, ?_, ?_, fun hack => absurd rfl hack, .silent hsilent⟩, fun _ => ⟨?_, ?_, ?_,
    fun hreq => absurd (hstream ▸ rfl) hreq⟩⟩
  · rw [h₁, hstream]
    exact le_rfl
  · rw [h₂, hstream]
    exact le_rfl
  · rw [h₃, hstream]
    exact le_rfl
  · rw [h₄, hg, hstream]
    exact le_rfl
  · rw [hw]
    exact Nat.zero_le _
  · rw [h₁, hstream]
    rfl
  · rw [h₂, hstream]
    rfl
  · rw [h₄, hg, hstream]
    rfl

theorem settles_start (spliced : Bool) : Settles [] (Source.start spliced).stream := by
  have hstream : (Source.start spliced).stream = .new := by cases spliced <;> rfl
  rw [hstream]
  exact ⟨le_rfl, by decide, by decide, le_rfl, by decide, le_rfl, fun pre post h => by simp at h⟩

/-- **A source that is admitted is joined to its leg.** -/
theorem joined_activate (h : e.Open) {readable : Bool} {id : Nat} {e' : Entry}
    (ha : e.activate readable = (e', some id)) (spliced : Bool) :
    e'.Joined id (.start spliced) := by
  cases hr : e.refuses with
  | true =>
    unfold activate at ha
    rw [if_pos hr] at ha
    cases ha
  | false =>
    rcases activate_cases hr readable with ⟨-, he⟩ | ⟨p, e₁, hp, he₁, he⟩
    · rw [he] at ha
      cases ha
    · rw [he] at ha
      obtain ⟨rfl, hid⟩ := Prod.mk.inj ha
      split at hid
      · obtain rfl := Option.some.inj hid
        obtain ⟨-, -, hpool⟩ := Pool.add_cases hp
        have hattach : Joined ({ e.register with forwardPool := p }.setRecord e.nextStreamId
            { Record.new with attached := true }) e.nextStreamId (.start spliced) := by
          refine ⟨⟨_, JsMap.get?_set_self _ _ _, Link.single_new, settles_start spliced⟩,
            fun r hr => ?_⟩
          obtain rfl := Option.some.inj ((JsMap.get?_set_self _ _ _).symm.trans hr)
          refine ⟨⟨e.forwardPool.nextSerial, 0, 0, false, 0, demandProgress, 0, false⟩, _, ?_,
            JsMap.get?_set_self _ _ _, joint_start spliced rfl rfl⟩
          rw [hpool]
          exact JsMap.get?_set_self _ _ _
        rw [he₁]
        split
        · exact hattach
        · exact hattach.sendOut (h.attach hp).1 _
      · cases hid

end Entry

namespace FlowRoute

variable {honest : Nat → Bool} {s : FlowRoute}

structure Balanced (s : FlowRoute) : Prop where
  trunk : Trunk s.entry s.dest
  sane : ∀ id src, s.sources.get? id = some src → src.Sane
  joined : ∀ id src, s.sources.get? id = some src → s.entry.Joined id src
  fair : ∀ id src, s.sources.get? id = some src → src.Fair
  dest : ∀ g ∈ s.dest.faults, g.ofCredit = false

/-- The sources are those that run this code. -/
def Honest (honest : Nat → Bool) (s : FlowRoute) : Prop :=
  ∀ id src, s.sources.get? id = some src → honest id = true

theorem balanced_new (spliced : Bool) (others : Nat) : (new spliced others).Balanced where
  trunk := .new spliced others
  sane _ _ hs := by cases hs
  joined _ _ hs := by cases hs
  fair _ _ hs := by cases hs
  dest _ hg := absurd hg List.not_mem_nil

theorem Balanced.entry (h : s.Balanced) {ev : EntryEvent} (hev : Entry.own ev = true) :
    Balanced { s with entry := s.entry.step ev } ∧ Entry.Sound s.entry (s.entry.step ev) := by
  have hk := Entry.kept_step h.trunk.entry ev
  have hstep : Entry.Apart s.entry (s.entry.step ev) ∧ s.entry.Deals [] (s.entry.step ev) ∧
      ((s.entry.step ev).closed = false → s.entry.closed = false) := by
    rcases h.trunk.entry with hg | ⟨ho, hsum, -⟩
    · exact ⟨hg.apart_step hev, hg.deals_own hev,
        fun hc => absurd (hc.symm.trans (hg.step ev).closed) (by decide)⟩
    · exact ⟨Entry.apart_step ho hsum hev, Entry.deals_own ho hsum h.trunk.window hev, fun _ => ho.live⟩
  obtain ⟨ha, hd, hstay⟩ := hstep
  exact ⟨⟨h.trunk.entryMoves hd hk hstay, h.sane, fun id src hs => ha.joined id src (h.joined id src hs),
    h.fair, h.dest⟩, Entry.sound_of_faults ha.faults⟩

theorem Balanced.activate (h : s.Balanced) (readable : Bool) :
    (s.activate honest readable).Balanced ∧
      Entry.Sound s.entry (s.activate honest readable).entry := by
  obtain ⟨hb, hs⟩ := h.entry (show Entry.own (.activate readable) = true from rfl)
  change Balanced { s with entry := (s.entry.activate readable).1 } at hb
  change Entry.Sound s.entry (s.entry.activate readable).1 at hs
  unfold FlowRoute.activate
  split
  · next entry he =>
    rw [he] at hb hs
    exact ⟨hb, hs⟩
  · next entry id he =>
    rw [he] at hb hs
    refine ⟨?_, hs⟩
    cases honest id with
    | false => exact hb
    | true =>
      have hj : entry.Joined id (.start entry.spliced) := by
        rcases h.trunk.entry with hg | ⟨ho, -, -⟩
        · unfold Entry.activate at he
          rw [if_pos (by simp [Entry.refuses, hg.closed])] at he
          cases he
        · exact Entry.joined_activate ho he _
      refine ⟨hb.trunk, fun id' src hsrc => ?_, fun id' src hsrc => ?_, fun id' src hsrc => ?_,
        hb.dest⟩
      · rcases JsMap.get?_set_cases hsrc with ⟨-, rfl⟩ | ⟨-, hsrc⟩
        · exact Source.sane_start _
        · exact hb.sane id' src hsrc
      · rcases JsMap.get?_set_cases hsrc with ⟨rfl, rfl⟩ | ⟨-, hsrc⟩
        · exact hj
        · exact hb.joined id' src hsrc
      · rcases JsMap.get?_set_cases hsrc with ⟨-, rfl⟩ | ⟨-, hsrc⟩
        · exact Source.fair_start _
        · exact hb.fair id' src hsrc

theorem Balanced.setSource (h : s.Balanced) {id : Nat} {src src' : Source} {e' : Entry}
    (hsrc : s.sources.get? id = some src) (ht : Trunk e' s.dest) (hs : src'.Sane)
    (hj : e'.Joined id src') (hf : src'.Fair)
    (hothers : ∀ id' src, id' ≠ id → s.entry.Joined id' src → e'.Joined id' src) :
    Balanced { s with entry := e', sources := s.sources.set id src' } := by
  refine ⟨ht, fun id' src₁ h₁ => ?_, fun id' src₁ h₁ => ?_, fun id' src₁ h₁ => ?_, h.dest⟩
  · rcases JsMap.get?_set_cases h₁ with ⟨-, rfl⟩ | ⟨-, h₁⟩
    · exact hs
    · exact h.sane id' src₁ h₁
  · rcases JsMap.get?_set_cases h₁ with ⟨rfl, rfl⟩ | ⟨hne, h₁⟩
    · exact hj
    · exact hothers id' src₁ hne (h.joined id' src₁ h₁)
  · rcases JsMap.get?_set_cases h₁ with ⟨-, rfl⟩ | ⟨-, h₁⟩
    · exact hf
    · exact h.fair id' src₁ h₁

theorem Balanced.source (h : s.Balanced) {id : Nat} {src : Source}
    (hsrc : s.sources.get? id = some src) (ev : SourceEvent) :
    Balanced { s with sources := s.sources.set id (src.step ev) } := by
  have hs := h.sane id src hsrc
  have hj := h.joined id src hsrc
  rcases Source.step_cases hs ev with hg | ⟨l, he, hd, hl, hframes⟩
  · exact h.setSource hsrc h.trunk hg.2 (hj.goes hs hg) ((h.fair id src hsrc).goes hg)
      fun _ _ _ hj => hj
  · rw [he]
    exact h.setSource hsrc h.trunk (Source.sane_setLink hs hd hl) (hj.relink hframes)
      (h.fair id src hsrc) fun _ _ _ hj => hj

/-- What the entry makes of any payload of a source, for the shared link. -/
theorem trunk_fromSource {e : Entry} {d : Dest} (h : Trunk e d) (now : Int) (id : Nat)
    (payload : Payload) (udx : Option (Nat × Nat)) :
    Trunk (Entry.fromSource now e id payload udx) d := by
  have hk := Entry.kept_step h.entry (.fromSource now id payload udx)
  change (Entry.fromSource now e id payload udx).Kept at hk
  rcases Entry.fromSource_turns h.entry now id payload udx with
    ⟨he, -⟩ | ⟨ho, r, -, -, he | ⟨f, -, ht⟩⟩
  · rw [he]
    exact h
  · rw [he] at hk ⊢
    exact h.entryMoves ((Entry.deals_drifts (e := e.fault .decode) (ho.fault _) h.window
      (Entry.drifts_closeLeg (ho.fault .decode) now id)).congr rfl) hk fun _ => ho.live
  · exact h.entryMoves (ht.deals ho h.window) hk fun _ => ho.live

theorem Balanced.fromSource (h : s.Balanced) (now : Int) (id : Nat) (udx : Option (Nat × Nat)) :
    (s.fromSource now id udx).Balanced ∧ Entry.Sound s.entry (s.fromSource now id udx).entry := by
  unfold FlowRoute.fromSource
  split
  · exact ⟨h, .refl _⟩
  · next src hsrc =>
    split
    · exact ⟨h, .refl _⟩
    · next f l htake =>
      have hs := h.sane id src hsrc
      obtain ⟨hj, hsound⟩ := (h.joined id src hsrc).fromSource h.trunk.entry hs htake now udx
      have hlink : l.destroyed = src.link.destroyed ∧ l.Single := by
        refine ⟨?_, hs.single.take htake⟩
        unfold Link.take at htake
        split at htake
        · cases htake
        · cases htake
          rfl
      exact ⟨h.setSource hsrc (trunk_fromSource h.trunk now id _ udx)
        (Source.sane_setLink hs hlink.1 hlink.2) hj (h.fair id src hsrc)
        fun id' src' hne hj => hj.fromOther h.trunk.entry now hne _ udx, hsound⟩

theorem Balanced.forged (h : s.Balanced) (hh : s.Honest honest) (now : Int) {id : Nat}
    (hid : honest id = false) (payload : Payload) (udx : Option (Nat × Nat)) :
    Balanced { s with entry := Entry.fromSource now s.entry id payload udx } where
  trunk := trunk_fromSource h.trunk now id payload udx
  sane := h.sane
  joined id' src hsrc := by
    refine (h.joined id' src hsrc).fromOther h.trunk.entry now ?_ payload udx
    rintro rfl
    exact absurd ((hh id' src hsrc).symm.trans hid) (by decide)
  fair := h.fair
  dest := h.dest

/-- A reader takes a frame off a link; what the writer is stays. -/
theorem dest_take {d : Dest} (h : d.Gone ∨ d.Open) {f : Frame} {l : Link}
    (ht : d.link.take = some (f, l)) : Dest.Gone { d with link := l } ∨ Dest.Open { d with link := l } := by
  have hd : l.destroyed = d.link.destroyed := by
    unfold Link.take at ht
    split at ht
    · cases ht
    · cases ht
      rfl
  exact h.imp (fun hg => ⟨hg.closed, hg.poolClosed, hg.streams, hd.trans hg.link⟩)
    fun ho => ho.setLink (hd.trans ho.link)

/-- What an open entry makes of the next frame of the destination. -/
theorem entry_receive {e : Entry} {d : Dest} (h : Trunk e d) (ho : e.Open)
    (hsum : e.reverseSum = circuitWindow) {f : Frame} {l : Link} (htake : d.link.take = some (f, l))
    (now : Int) :
    e.Deals [f] (Entry.receive now e (.frame f)) ∧ Entry.Sound e (Entry.receive now e (.frame f)) ∧
      ∀ id src, e.Joined id src → (Entry.receive now e (.frame f)).Joined id src := by
  cases hf : decodeLogical (.frame f) with
  | none =>
    rw [Entry.receive_undecoded ho now hf]
    have hs := Entry.shut_destroy (ho.fault .decode)
    refine ⟨?_, Entry.sound_fault rfl hs.faults, fun id src hj => ?_⟩
    · exact ((Entry.deals_shut (e := e.fault .decode) (ho.fault _) h.window hs).weaken hs.closed
        [f]).congr rfl
    · exact Entry.Joined.shut (e := e.fault .decode) (hj.congr rfl rfl rfl) hs
  | some f' =>
    obtain rfl := Payload.frame.inj (decodeLogical_eq_some hf).1
    have ht := Entry.turn_receive ho hsum now hf
    exact ⟨ht.deals ho h.window, Entry.sound_destination (fun g hg => h.entry_accepts ho htake hg) ht,
      fun id src hj => hj.passed ho (h.window id) ht⟩

theorem Balanced.fromDest (h : s.Balanced) (now : Int) :
    (s.fromDest now).Balanced ∧ Entry.Sound s.entry (s.fromDest now).entry := by
  unfold FlowRoute.fromDest
  split
  · exact ⟨h, .refl _⟩
  · next f l htake =>
    have hk := Entry.kept_step h.trunk.entry (.receive now (.frame f))
    change (Entry.receive now s.entry (.frame f)).Kept at hk
    have hdest := dest_take h.trunk.dest htake
    have hentry : s.entry.Deals [f] (Entry.receive now s.entry (.frame f)) ∧
        Entry.Sound s.entry (Entry.receive now s.entry (.frame f)) ∧
        ((Entry.receive now s.entry (.frame f)).closed = false → s.entry.closed = false) ∧
        ∀ id src, s.entry.Joined id src → (Entry.receive now s.entry (.frame f)).Joined id src := by
      rcases h.trunk.entry with hg | ⟨ho, hsum, -⟩
      · have he : Entry.receive now s.entry (.frame f) = s.entry := if_pos hg.closed
        rw [he]
        exact ⟨(Entry.Deals.refl h.trunk.window).weaken hg.closed [f], .refl _, fun hc => hc,
          fun _ _ hj => hj⟩
      · obtain ⟨hd, hs, hj⟩ := entry_receive h.trunk ho hsum htake now
        exact ⟨hd, hs, fun _ => ho.live, hj⟩
    obtain ⟨hd, hs, hstay, hj⟩ := hentry
    exact ⟨⟨h.trunk.entryReads htake hd hk hdest hstay, h.sane,
      fun id src hsrc => hj id src (h.joined id src hsrc), h.fair, h.dest⟩, hs⟩

theorem Balanced.toSource (h : s.Balanced) (now : Int) (id : Nat) :
    (s.toSource now id).Balanced ∧ Entry.Sound s.entry (s.toSource now id).entry := by
  have hfaults : ∀ id, (s.entry.step (.legLink id .take)).faults = s.entry.faults := fun id => by
    show (s.entry.legProgress id .take).faults = _
    unfold Entry.legProgress
    split <;> rfl
  have hclosed : ∀ id, (s.entry.step (.legLink id .take)).closed = s.entry.closed := fun id => by
    show (s.entry.legProgress id .take).closed = _
    unfold Entry.legProgress
    split <;> rfl
  unfold FlowRoute.toSource
  split
  · next src leg hsrc hleg =>
    split
    · exact ⟨h, .refl _⟩
    · next f l htake =>
      have hs := h.sane id src hsrc
      have hj := h.joined id src hsrc
      obtain ⟨s₁, ht, hg⟩ := Source.receive_reads hs now f
      have hset : Settles (f :: l.frames) src.stream := by
        obtain ⟨leg₀, hl₀, -, hset⟩ := hj.settled
        obtain rfl := Option.some.inj (hleg.symm.trans hl₀)
        rwa [Link.frames_take htake] at hset
      have htrunk := h.trunk.entryMoves (Entry.deals_legLink h.trunk.window id .take)
        (Entry.kept_step h.trunk.entry _) fun hc => (hclosed id) ▸ hc
      exact ⟨h.setSource hsrc htrunk hg.2 ((hj.took hleg htake ht).goes ht.sane hg)
        (((h.fair id src hsrc).took hset ht).goes hg) fun id' src' hne hj => hj.legTake hne,
        Entry.sound_of_faults (hfaults id)⟩
  · exact ⟨h, .refl _⟩

theorem Balanced.ofDest (h : s.Balanced) {ev : DestEvent} (hev : ev.isReceive = false) :
    Balanced { s with dest := s.dest.step ev } := by
  have hown : Dest.Own s.dest (s.dest.step ev) ∧
      ((s.dest.step ev).Gone ∨ (s.dest.step ev).Open) ∧
      ((s.dest.step ev).closed = false → s.dest.closed = false) := by
    rcases h.trunk.dest with hg | ho
    · exact ⟨hg.own_step hev, .inl (hg.step ev),
        fun hc => absurd (hc.symm.trans (hg.step ev).closed) (by decide)⟩
    · exact ⟨Dest.own_step ho hev, (Dest.stays_step ho hev).imp id And.left, fun _ => ho.live⟩
  obtain ⟨ho, hdest, hstay⟩ := hown
  refine ⟨h.trunk.destMoves ho.deals hdest hstay, h.sane, h.joined, h.fair, fun g hg => ?_⟩
  rcases ho.faults g hg with hg | rfl
  · exact h.dest g hg
  · rfl

/-- What an open destination makes of the next frame of the entry. -/
theorem dest_receive {e : Entry} {d : Dest} (h : Trunk e d) (ho : d.Open) {f : Frame} {l : Link}
    (htake : e.link.take = some (f, l)) (now : Int) (a : Acceptance) :
    d.Deals [f] (Dest.receive now d (.frame f) a) ∧
      ((Dest.receive now d (.frame f) a).Gone ∨ (Dest.receive now d (.frame f) a).Open) ∧
      ∀ g ∈ (Dest.receive now d (.frame f) a).faults, g ∈ d.faults ∨ g.ofCredit = false := by
  have hacc : ∀ g, d.Refuses f g → g.ofCredit = false := fun g hg => h.dest_accepts ho htake hg
  cases hf : decodeLogical (.frame f) with
  | none =>
    rw [Dest.receive_undecoded ho now hf a]
    have hend : Dest.Ended f d (d.fault .decode).destroy := Dest.ended_fail ho trivial
    exact ⟨Dest.deals_closed ho hend.closed hend.streams hend.link [f], .inl hend.gone,
      fun g hg => (hend.faults g hg).imp_right (hacc g)⟩
  | some f' =>
    obtain rfl := Payload.frame.inj (decodeLogical_eq_some hf).1
    have hr := Dest.reads_receive ho now hf a
    refine ⟨hr.deals ho, ?_, ?_⟩
    · cases hr with
      | ended he => exact .inl he.gone
      | took ho' ht hadv => exact .inr ho'
    · cases hr with
      | ended he => exact fun g hg => (he.faults g hg).imp_right (hacc g)
      | took ho' ht hadv => exact fun g hg => (ht.faults g hg).imp_right (hacc g)

theorem Balanced.toDest (h : s.Balanced) (now : Int) (a : Acceptance) :
    (s.toDest now a).Balanced ∧ Entry.Sound s.entry (s.toDest now a).entry := by
  unfold FlowRoute.toDest
  split
  · exact ⟨h, .refl _⟩
  · next f l htake =>
    have he : s.entry.step (.link .take) = { s.entry with link := l } := by
      show ({ s.entry with link := (s.entry.link.take.map Prod.snd).getD s.entry.link } : Entry) = _
      rw [htake]
      rfl
    have hk := Entry.kept_step h.trunk.entry (.link .take)
    rw [he] at hk ⊢
    have hdest : s.dest.Deals [f] (Dest.receive now s.dest (.frame f) a) ∧
        ((Dest.receive now s.dest (.frame f) a).Gone ∨ (Dest.receive now s.dest (.frame f) a).Open) ∧
        ((Dest.receive now s.dest (.frame f) a).closed = false → s.dest.closed = false) ∧
        ∀ g ∈ (Dest.receive now s.dest (.frame f) a).faults, g.ofCredit = false := by
      rcases h.trunk.dest with hg | ho
      · have hr : Dest.receive now s.dest (.frame f) a = s.dest := if_pos hg.closed
        rw [hr]
        exact ⟨⟨(Windows.Moves.refl _).weaken [f], fun hc => absurd (hc.symm.trans hg.closed)
          (by decide)⟩, .inl hg, fun hc => hc, h.dest⟩
      · obtain ⟨hd, hend, hf⟩ := dest_receive h.trunk ho htake now a
        exact ⟨hd, hend, fun _ => ho.live, fun g hg => (hf g hg).elim (h.dest g) id⟩
    obtain ⟨hd, hend, hstay, hf⟩ := hdest
    exact ⟨⟨h.trunk.destReads htake hd hk hend hstay, h.sane,
      fun id src hsrc => (h.joined id src hsrc).congr rfl rfl rfl, h.fair, hf⟩,
      Entry.sound_of_faults rfl⟩

/-! ## Runs -/

theorem step_entry {ev : EntryEvent} (hev : Entry.own ev = true) :
    s.step honest (.entry ev) = { s with entry := s.entry.step ev } := if_pos hev

theorem step_entry_read {ev : EntryEvent} (hev : ¬Entry.own ev = true) :
    s.step honest (.entry ev) = s := if_neg hev

theorem step_forged_honest {id : Nat} (hid : honest id = true) (now : Int) (payload : Payload)
    (udx : Option (Nat × Nat)) : s.step honest (.forged now id payload udx) = s := if_pos hid

theorem step_forged {id : Nat} (hid : honest id = false) (now : Int) (payload : Payload)
    (udx : Option (Nat × Nat)) : s.step honest (.forged now id payload udx) =
      { s with entry := Entry.fromSource now s.entry id payload udx } :=
  if_neg (by rw [hid]; decide)

theorem step_source_none {id : Nat} (hsrc : s.sources.get? id = none) (ev : SourceEvent) :
    s.step honest (.source id ev) = s := by
  show (match s.sources.get? id with | none => s | some _ => _) = s
  rw [hsrc]

theorem step_source {id : Nat} {src : Source} (hsrc : s.sources.get? id = some src)
    (ev : SourceEvent) : s.step honest (.source id ev) =
      { s with sources := s.sources.set id (src.step ev) } := by
  show (match s.sources.get? id with | none => s | some source => _) = _
  rw [hsrc]

theorem step_dest_receive {ev : DestEvent} (hev : ev.isReceive = true) :
    s.step honest (.dest ev) = s := if_pos hev

theorem step_dest {ev : DestEvent} (hev : ev.isReceive = false) :
    s.step honest (.dest ev) = { s with dest := s.dest.step ev } :=
  if_neg (by rw [hev]; decide)

theorem Balanced.step (h : s.Balanced) (hh : s.Honest honest) (ev : FlowEvent) :
    (s.step honest ev).Balanced ∧
      (ev.isForged = false → Entry.Sound s.entry (s.step honest ev).entry) := by
  cases ev with
  | activate readable =>
    exact (h.activate readable).imp id fun hs _ => hs
  | entry ev =>
    by_cases hev : Entry.own ev = true
    · obtain ⟨hb, hs⟩ := h.entry hev
      rw [step_entry hev]
      exact ⟨hb, fun _ => hs⟩
    · rw [step_entry_read hev]
      exact ⟨h, fun _ => .refl _⟩
  | fromSource now id udx =>
    obtain ⟨hb, hs⟩ := h.fromSource now id udx
    exact ⟨hb, fun _ => hs⟩
  | forged now id payload udx =>
    refine ⟨?_, fun hev => by cases hev⟩
    cases hid : honest id with
    | true =>
      rw [step_forged_honest hid]
      exact h
    | false =>
      rw [step_forged hid]
      exact h.forged hh now hid payload udx
  | fromDest now =>
    obtain ⟨hb, hs⟩ := h.fromDest now
    exact ⟨hb, fun _ => hs⟩
  | source id ev =>
    cases hsrc : s.sources.get? id with
    | none =>
      rw [step_source_none hsrc]
      exact ⟨h, fun _ => .refl _⟩
    | some src =>
      rw [step_source hsrc]
      exact ⟨h.source hsrc ev, fun _ => .refl _⟩
  | toSource now id =>
    obtain ⟨hb, hs⟩ := h.toSource now id
    exact ⟨hb, fun _ => hs⟩
  | dest ev =>
    cases hev : ev.isReceive with
    | true =>
      rw [step_dest_receive hev]
      exact ⟨h, fun _ => .refl _⟩
    | false =>
      rw [step_dest hev]
      exact ⟨h.ofDest hev, fun _ => .refl _⟩
  | toDest now a =>
    obtain ⟨hb, hs⟩ := h.toDest now a
    exact ⟨hb, fun _ => hs⟩

theorem Honest.set (hh : s.Honest honest) {id : Nat} (hid : honest id = true) {src : Source}
    {s' : FlowRoute} (hs : s'.sources = s.sources.set id src) : s'.Honest honest := by
  intro id' src' h'
  rcases JsMap.get?_set_cases (hs ▸ h') with ⟨heq, -⟩ | ⟨-, h'⟩
  · exact heq ▸ hid
  · exact hh id' src' h'

/-- Only a leg that is named gets a source. -/
theorem Honest.step (hh : s.Honest honest) (ev : FlowEvent) : (s.step honest ev).Honest honest := by
  have hsame : ∀ {s' : FlowRoute}, s'.sources = s.sources → s'.Honest honest := fun hs id src h' =>
    hh id src (hs ▸ h')
  cases ev with
  | activate readable =>
    show (s.activate honest readable).Honest honest
    unfold activate
    split
    · exact hsame rfl
    · next entry id he =>
      cases hid : honest id with
      | true => exact hh.set hid rfl
      | false => exact hsame rfl
  | entry ev =>
    show Honest honest (if Entry.own ev then _ else s)
    split
    · exact hsame rfl
    · exact hh
  | fromSource now id udx =>
    show (s.fromSource now id udx).Honest honest
    unfold FlowRoute.fromSource
    split
    · exact hh
    · next src hsrc =>
      split
      · exact hh
      · exact hh.set (hh id src hsrc) rfl
  | forged now id payload udx =>
    show Honest honest (if honest id then s else _)
    split
    · exact hh
    · exact hsame rfl
  | fromDest now =>
    show (s.fromDest now).Honest honest
    unfold FlowRoute.fromDest
    split
    · exact hh
    · exact hsame rfl
  | source id ev =>
    show Honest honest (match s.sources.get? id with | none => s | some _ => _)
    split
    · exact hh
    · next src hsrc => exact hh.set (hh id src hsrc) rfl
  | toSource now id =>
    show (s.toSource now id).Honest honest
    unfold FlowRoute.toSource
    split
    · next src leg hsrc hleg =>
      split
      · exact hh
      · exact hh.set (hh id src hsrc) rfl
    · exact hh
  | dest ev =>
    show Honest honest (if ev.isReceive then s else _)
    split
    · exact hh
    · exact hsame rfl
  | toDest now a =>
    show (s.toDest now a).Honest honest
    unfold FlowRoute.toDest
    split
    · exact hh
    · exact hsame rfl

theorem balanced_run (spliced : Bool) (others : Nat) (honest : Nat → Bool) (evs : List FlowEvent) :
    (run honest (new spliced others) evs).Balanced ∧
      (run honest (new spliced others) evs).Honest honest := by
  suffices h : ∀ s : FlowRoute, s.Balanced → s.Honest honest →
      (run honest s evs).Balanced ∧ (run honest s evs).Honest honest from
    h _ (balanced_new spliced others) fun id src hs => by cases hs
  induction evs with
  | nil => exact fun s hb hh => ⟨hb, hh⟩
  | cons ev evs ih => exact fun s hb hh => ih _ (hb.step hh ev).1 (hh.step ev)

/-- **No check of credit fails.** On the legs that `honest` names the source runs this code;
on the others anything may come. -/
theorem credit_safe (spliced : Bool) (others : Nat) (honest : Nat → Bool) (evs : List FlowEvent) :
    let s := run honest (new spliced others) evs
    (∀ id src, s.sources.get? id = some src → ∀ g ∈ src.faults, g.ofCredit = false) ∧
      (∀ g ∈ s.dest.faults, g.ofCredit = false) ∧
      ∀ ev, ev.isForged = false → Entry.Sound s.entry (s.step honest ev).entry := by
  obtain ⟨hb, hh⟩ := balanced_run spliced others honest evs
  exact ⟨hb.fair, hb.dest, fun ev hev => (hb.step hh ev).2 hev⟩

/-- One source that runs this code and one that does not, with data both ways. -/
def exchange : List FlowEvent :=
  [.activate true, .activate true, .entry (.link .nextSend), .toDest 0 ⟨true, none, true⟩,
    .source 2 (.write 0 [1, 2, 3]), .source 2 .nextSend, .fromSource 0 2 none,
    .entry (.legLink 2 .nextSend), .toSource 0 2, .source 2 (.resumed 0 true), .source 2 .nextSend,
    .forged 1 4 (.frame ⟨0, .fin⟩) none, .fromSource 1 2 none, .dest (.write 2 2 [5]),
    .dest .nextSend, .fromDest 3, .source 2 (.resumed 4 true),
    .source 2 (.write 4 [6]), .source 2 .nextSend]

theorem credit_safe_exchange :
    let s := run (· == 2) (new false 0) exchange
    let s' := s.step (· == 2) (.fromSource 5 2 none)
    s.entry.link.total Frame.cells = 1 ∧ s'.entry.link.total Frame.cells = 2 ∧
      Entry.Sound s.entry s'.entry :=
  ⟨by decide +kernel, by decide +kernel, (credit_safe false 0 (· == 2) exchange).2.2 _ rfl⟩

/-- **No cell of a window is lost.** While both ends of the shared link are open, each
circuit window is what its pool has left and has granted, what is in flight, what the other end
holds, and the credit on its way back. So are the windows of an honest source on its leg. -/
theorem windows_conserved (spliced : Bool) (others : Nat) (honest : Nat → Bool)
    (evs : List FlowEvent) :
    let s := run honest (new spliced others) evs
    (s.entry.closed = false → s.dest.closed = false →
      (s.entry.forwardPool.available + s.entry.forwardPool.granted +
        s.entry.link.total Frame.cells + (circuitWindow - s.dest.receiveCredit) +
          s.dest.link.total (Frame.creditOf circuitStreamId) : Int) = circuitWindow ∧
      (s.dest.sendPool.available + s.dest.sendPool.granted + s.dest.link.total Frame.cells +
        (circuitWindow - s.entry.reverseReceiveCredit) +
          s.entry.link.total (Frame.creditOf circuitStreamId) : Int) = circuitWindow) ∧
      ∀ id src r, s.sources.get? id = some src → src.stream.destroying = false →
        s.entry.sources.get? id = some r →
        ∃ leg l, s.entry.forwardPool.legs.get? id = some leg ∧ s.entry.links.get? id = some l ∧
          r.sendCredit = src.stream.sendCredit + weigh (Frame.dataOf 0) src.link.frames +
            weigh (Frame.creditOf 0) l.frames ∧
          src.stream.receiveCredit = r.receiveCredit + weigh (Frame.dataOf 0) l.frames +
            weigh (Frame.creditOf 0) src.link.frames ∧
          leg.granted = src.stream.circuitCredit + weigh Frame.uses src.link.frames +
            weigh (Frame.creditOf circuitStreamId) l.frames := by
  obtain ⟨hb, -⟩ := balanced_run spliced others honest evs
  refine ⟨fun hc hc' => ?_, fun id src r hsrc hlive hr => ?_⟩
  · obtain ⟨hforth, hback⟩ := hb.trunk.exact hc hc'
    have hentry := hb.trunk.entry_pool hc
    have hdest := hb.trunk.dest_pool hc'
    simp only [Entry.account, Dest.account, hc, hc', Bool.false_eq_true, if_false, trunk]
      at hforth hback
    exact ⟨by omega, by omega⟩
  · obtain ⟨leg, l, hleg, hl, hj⟩ := (hb.joined id src hsrc).joint r hr
    have hx := hj.exact hlive
    exact ⟨leg, l, hleg, hl, hx.send, hx.recv, hx.granted⟩

theorem windows_conserved_exchange :
    let s := run (· == 2) (new false 0) exchange
    s.entry.link.total Frame.cells = 1 ∧ s.entry.reverseReceiveCredit + 1 = circuitWindow ∧
      (s.entry.forwardPool.available + s.entry.forwardPool.granted +
        s.entry.link.total Frame.cells + (circuitWindow - s.dest.receiveCredit) +
          s.dest.link.total (Frame.creditOf circuitStreamId) : Int) = circuitWindow := by
  have h := (windows_conserved false 0 (· == 2) exchange).1 (by decide +kernel) (by decide +kernel)
  exact ⟨by decide +kernel, by decide +kernel, h.1⟩

end FlowRoute

end HyperDht.Private
