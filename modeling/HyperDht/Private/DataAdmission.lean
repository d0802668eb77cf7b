import HyperDht.Lib.Runs
import HyperDht.Private.CreditRun

/-!
# DATA frames and the bound of a queue

`send` destroys a link on which a circuit window of DATA frames is pending. An honest
source, the entry and the destination never meet that bound, nor does the entry on the leg
of a registered honest source, as long as the write of a frame is reported before the other
end reads it (`FlowRoute.reported`): what a party may still send and the DATA frames pending
on its link never exceed the window together (`data_admitted`). On the other legs the bound
stays the only guard.
-/

namespace HyperDht.Private

/-! ## One link -/

namespace Link

/-- The write of the frame that is read next has been reported, if there is one. -/
def reported (l : Link) : Bool :=
  match l.take with
  | none => true
  | some (_, l') => decide (l'.pendingData ≤ l'.total Frame.cells)

variable {l l' : Link} {f : Frame}

theorem prompt_take (h : l.reported = true) (ht : l.take = some (f, l')) : l'.Prompt := by
  have h' : decide (l'.pendingData ≤ l'.total Frame.cells) = true := by
    unfold reported at h
    rwa [ht] at h
  exact show l'.pendingData ≤ l'.total Frame.cells from of_decide_eq_true h'

/-- A link of a leg: one queue, with DATA on stream 0 alone. -/
structure OfLeg (l : Link) : Prop where
  single : l.Single
  prompt : l.Prompt
  own : ∀ f ∈ l.frames, f.cells = f.dataOf 0

theorem ofLeg_new : (new false).OfLeg := ⟨single_new, Nat.zero_le _, fun _ hf => by cases hf⟩

theorem OfLeg.admits (h : l.OfLeg) {fs : List Frame} (hfs : ∀ f ∈ fs, f.cells = f.dataOf 0) :
    (l.admits fs).OfLeg := by
  refine ⟨h.single.admits fs, h.prompt.admits fs, fun f hf => ?_⟩
  rw [h.single.frames_admits] at hf
  exact (List.mem_append.mp hf).elim (h.own f) (hfs f)

theorem OfLeg.destroy (h : l.OfLeg) : l.destroy.OfLeg := by
  refine ⟨h.single.destroy, l.prompt_destroy, fun f hf => h.own f ?_⟩
  rw [frames_destroy] at hf
  exact List.mem_append_left _ hf

theorem OfLeg.progress (h : l.OfLeg) {ev : LinkEvent} (hev : ev ≠ .take) :
    (l.progress ev).OfLeg := by
  obtain ⟨hs, hframes⟩ := h.single.progress hev
  exact ⟨hs, h.prompt.progress hev, fun f hf => h.own f (hframes ▸ hf)⟩

theorem OfLeg.take (h : l.OfLeg) (hr : l.reported = true) (ht : l.take = some (f, l')) :
    l'.OfLeg := by
  refine ⟨h.single.take ht, prompt_take hr ht, fun g hg => h.own g ?_⟩
  rw [frames_take ht]
  exact List.mem_cons_of_mem _ hg

theorem Single.total (h : l.Single) (w : Frame → Nat) : l.total w = weigh w l.frames := by
  have hsends : l.sends.total w = weigh w (l.sends.jobs 0) := Ring.total_of_jobs h.jobs w
  show (l.wire.map w).sum + l.sends.total w = weigh w (l.wire ++ l.sends.jobs 0)
  rw [weigh_append, hsends]
  rfl

/-- The DATA frames pending on a leg are frames of its stream in flight. -/
theorem OfLeg.pending (h : l.OfLeg) : l.pendingData ≤ weigh (Frame.dataOf 0) l.frames := by
  have hsum : weigh Frame.cells l.frames = weigh (Frame.dataOf 0) l.frames := by
    unfold weigh
    rw [List.map_congr_left h.own]
  rw [← hsum, ← h.single.total]
  exact h.prompt

end Link

theorem weigh_le {w v : Frame → Nat} (h : ∀ f, w f ≤ v f) (fs : List Frame) :
    weigh w fs ≤ weigh v fs :=
  List.sum_le_sum fun f _ => h f

/-- The number of splices a payload asks for. -/
def Payload.splices : Payload → Nat
  | .frame f => f.splices
  | .garbage => 0

/-! ## The entry -/

namespace Entry

variable {n : Nat} {e e₁ e' : Entry} {id : Nat} {f : Frame}

/-- The links of the entry stay as they should, as far as they were, and it asks for at most `n`
splices more. -/
structure Admits (n : Nat) (e e' : Entry) : Prop where
  link : e.link.Prompt → e'.link.Prompt
  splices : e'.link.total Frame.splices ≤ e.link.total Frame.splices + n
  legs : ∀ id l, e.links.get? id = some l → l.OfLeg →
    ∃ l', e'.links.get? id = some l' ∧ l'.OfLeg

theorem Admits.refl (e : Entry) : Admits n e e :=
  ⟨fun hp => hp, Nat.le_add_right _ _, fun _ l hl h => ⟨l, hl, h⟩⟩

theorem Admits.trans (h : Admits n e e₁) (h' : Admits 0 e₁ e') : Admits n e e' := by
  refine ⟨fun hp => h'.link (h.link hp), h'.splices.trans h.splices, fun id l hl ho => ?_⟩
  obtain ⟨l₁, hl₁, ho₁⟩ := h.legs id l hl ho
  exact h'.legs id l₁ hl₁ ho₁

theorem Admits.congr (h : Admits n e₁ e') (hlink : e₁.link = e.link) (hlinks : e₁.links = e.links) :
    Admits n e e' := ⟨hlink ▸ h.link, hlink ▸ h.splices, hlinks ▸ h.legs⟩

theorem admits_same (hlink : e'.link = e.link) (hlinks : e'.links = e.links) : Admits n e e' :=
  ⟨fun hp => hlink ▸ hp, hlink ▸ Nat.le_add_right _ _, fun _ l hl h => ⟨l, hlinks ▸ hl, h⟩⟩

theorem admits_shut (h : Shut e e') : Admits n e e' := by
  refine ⟨fun _ => h.link ▸ Link.prompt_destroy _, ?_, fun id l hl ho => ?_⟩
  · rw [h.link]
    exact (e.link.total_destroy_le _).trans (Nat.le_add_right _ _)
  · exact ⟨l.destroy, by rw [h.links, hl]; rfl, ho.destroy⟩

theorem creditFrames_own (cs : List Nat) : ∀ f ∈ creditFrames cs, f.cells = f.dataOf 0 := by
  intro f hf
  obtain ⟨n, -, rfl⟩ := List.mem_map.mp hf
  rfl

theorem admits_drifts {d : Int} (h : Drifts d e e') : Admits n e e' := by
  rcases h with hs | ⟨-, hd⟩
  · exact admits_shut hs
  · obtain ⟨fs, hlink, -, hfs⟩ := hd.out
    have hnone : weigh Frame.splices fs = 0 := List.sum_eq_zero fun k hk => by
      obtain ⟨f, hf, rfl⟩ := List.mem_map.mp hk
      rcases hfs f hf with ⟨n, rfl, -⟩ | ⟨id, rfl, -⟩ <;> rfl
    refine ⟨fun hp => hlink ▸ hp.admits fs, ?_, fun id l hl ho => ?_⟩
    · rw [hlink, Link.total_admits]
      exact Nat.add_le_add_left (hnone.le.trans (Nat.zero_le n)) _
    obtain ⟨l', hl', hdrift⟩ := hd.links id l hl
    refine ⟨l', hl', ?_⟩
    rcases hdrift with rfl | ⟨cs, rfl, -⟩
    · exact ho.destroy
    · exact ho.admits (creditFrames_own cs)

theorem Turn.admits {r r' : Record} {back got sent : List Frame} {failed : List EntryFault}
    (h : Turn id r r' back got sent failed e e') (hback : ∀ f ∈ back, f.cells = f.dataOf 0)
    (hsent : weigh Frame.splices sent ≤ n) : Admits n e e' := by
  refine ⟨fun hp => h.link ▸ hp.admits sent, ?_, fun id' l hl ho => ?_⟩
  · rw [h.link, Link.total_admits]
    exact Nat.add_le_add_left hsent _
  by_cases hid : id' = id
  · subst hid
    exact ⟨_, h.leg l hl, ho.admits hback⟩
  · exact ⟨l, (h.links id' hid).trans hl, ho⟩

theorem SourceTurn.admits {r : Record} (h : SourceTurn id f r e e') : Admits f.splices e e' := by
  cases h with
  | shut hs => exact admits_shut hs
  | @refused leg g hleg hg hd hgone => exact (admits_drifts hd).congr rfl rfl
  | @handled leg leg' r' back sent e₁ d ht hleg hleg' hh ho hd hsplices =>
    refine (ht.admits (fun f hf => ?_) hsplices).trans (admits_drifts hd)
    cases hh with
    | plain => cases hf
    | demand => cases hf
    | cancel hf' hr hg hw hb =>
      rcases hb with rfl | rfl
      · cases hf
      · rw [List.mem_singleton.mp hf]
        rfl

theorem DestinationTurn.admits (h : DestinationTurn f e e') : Admits 0 e e' := by
  cases h with
  | @ended g hg hs => exact (admits_shut hs).congr rfl rfl
  | returned hf hp hd => exact (admits_drifts hd).congr rfl rfl
  | unclaimed hid hn hc ho hd => exact (admits_drifts hd).congr rfl rfl
  | refused hid ht hg ho hd hgone =>
    exact (ht.admits (fun _ hf => by cases hf) le_rfl).trans (admits_drifts hd)
  | dropped hid ht ho hd hgone =>
    exact (ht.admits (fun _ hf => by cases hf) le_rfl).trans (admits_drifts hd)
  | @handed r r' g hid ht hg hh ho hleg =>
    refine ht.admits (fun f hf => ?_) le_rfl
    rw [List.mem_singleton.mp hf]
    exact hg

theorem admits_fromSource (h : e.Kept) (now : Int) (id : Nat) (payload : Payload)
    (udx : Option (Nat × Nat)) : Admits payload.splices e (fromSource now e id payload udx) := by
  rcases fromSource_turns h now id payload udx with ⟨he, -⟩ | ⟨ho, r, -, -, he | ⟨f, rfl, ht⟩⟩
  · rw [he]
    exact .refl e
  · rw [he]
    exact (admits_drifts (drifts_closeLeg (ho.fault .decode) now id)).congr rfl rfl
  · exact ht.admits

theorem admits_receive (h : e.Kept) (now : Int) (payload : Payload) :
    Admits 0 e (receive now e payload) := by
  rcases h with hg | ⟨ho, hsum, -⟩
  · rw [show receive now e payload = e from if_pos hg.closed]
    exact .refl e
  · cases hf : decodeLogical payload with
    | none =>
      rw [receive_undecoded ho now hf]
      exact (admits_shut (shut_destroy (ho.fault .decode))).congr rfl rfl
    | some f =>
      obtain rfl := (decodeLogical_eq_some hf).1
      exact (turn_receive ho hsum now hf).admits

theorem admits_activate (h : e.Open) (readable : Bool) : Admits 0 e (e.activate readable).1 := by
  cases hr : e.refuses with
  | true =>
    unfold activate
    rw [if_pos hr]
    exact .refl e
  | false =>
    have hnew : Admits 0 e e.register := by
      refine ⟨fun hp => hp, le_rfl, fun id l hl ho => ⟨l, ?_, ho⟩⟩
      have hne : id ≠ e.nextStreamId := by
        rintro rfl
        exact absurd (hl.symm.trans h.fresh.1) (by simp)
      exact (JsMap.get?_set_ne _ _ hne).trans hl
    rcases activate_cases hr readable with ⟨-, he⟩ | ⟨p, e₁, hp, he₁, he⟩
    · rw [he]
      exact hnew
    · rw [he, he₁]
      split
      · exact hnew.trans (admits_same rfl rfl)
      · refine hnew.trans ?_
        rcases sendOut_cases (h.attach hp).1 ⟨e.nextStreamId, .openStream⟩ with hs | ⟨-, hsent⟩
        · exact (admits_shut hs).congr rfl rfl
        · rw [hsent]
          refine ⟨fun hp => hp.enqueue _, ?_, fun _ l hl ho => ⟨l, hl, ho⟩⟩
          exact (Link.total_enqueue _ _ _).le

theorem admits_legProgress (id : Nat) {ev : LinkEvent} (hev : ev ≠ .take) :
    Admits 0 e (e.legProgress id ev) := by
  unfold legProgress
  split
  · exact .refl e
  · next l hl =>
    refine ⟨fun hp => hp, le_rfl, fun id' l' hl' ho => ?_⟩
    show ∃ l'', (e.links.set id (l.progress ev)).get? id' = some l'' ∧ l''.OfLeg
    rw [JsMap.get?_set]
    split
    · next heq =>
      subst heq
      obtain rfl := Option.some.inj (hl.symm.trans hl')
      exact ⟨_, rfl, ho.progress hev⟩
    · exact ⟨l', hl', ho⟩

theorem admits_own (h : e.Kept) {ev : EntryEvent} (hev : own ev = true) : Admits 0 e (e.step ev) := by
  have hlink : ∀ {lev : LinkEvent}, lev ≠ .take → Admits 0 e { e with link := e.link.progress lev } :=
    fun hlev => ⟨fun hp => hp.progress hlev, (e.link.total_progress hlev _).le,
      fun _ l hl h => ⟨l, hl, h⟩⟩
  rcases h with hg | ⟨ho, hsum, -⟩
  · rcases hg.own_cases hev with ⟨p, b, r, -, he⟩ | ⟨lev, hlev, he⟩ | ⟨id, lev, hlev, he⟩
    · exact admits_same (by rw [he]) (by rw [he])
    · exact he ▸ hlink hlev
    · exact he ▸ admits_legProgress id hlev
  · cases ev with
    | activate readable => exact admits_activate ho readable
    | fromSource | receive => cases hev
    | closeLeg now id => exact admits_drifts (drifts_closeLeg ho now id)
    | returnTimer =>
      show Admits 0 e e.returnFired
      unfold returnFired
      split
      · have ho : Open { e with returnTimer := false } :=
          ⟨ho.live, ho.pool, ho.poolLive, ho.link, ho.reverse, ho.legs, ho.attached, ho.linked, ho.gone,
            ho.ids, ho.even⟩
        exact (admits_drifts (drifts_returnReverse ho 0 hsum.le true)).congr rfl rfl
      · exact .refl e
    | idleTimer now id busy =>
      have ho' := ho.alike (e.forwardPool.alike_idleFired id busy now)
      show Admits 0 e (idleFired now e id busy)
      unfold idleFired
      split
      · exact admits_same rfl rfl
      · next p hp =>
        rw [hp] at ho'
        exact (admits_drifts (drifts_closeLeg ho' now id)).congr rfl rfl
    | touch now id => exact admits_same rfl rfl
    | link lev =>
      have hlev : lev ≠ .take := by
        rintro rfl
        cases hev
      exact hlink hlev
    | legLink id lev =>
      have hlev : lev ≠ .take := by
        rintro rfl
        cases hev
      exact admits_legProgress id hlev
    | spliceClosed id =>
      show Admits 0 e (e.spliceClosed id)
      unfold spliceClosed
      split
      · exact .refl e
      · exact admits_same rfl rfl
    | retire => exact admits_same rfl rfl
    | destroy => exact admits_shut (shut_destroy ho)

theorem ofLeg_activate (h : e.Open) {readable : Bool}
    (ha : e.activate readable = (e', some id)) : ∃ l, e'.links.get? id = some l ∧ l.OfLeg := by
  cases hr : e.refuses with
  | true =>
    unfold activate at ha
    rw [if_pos hr] at ha
    cases ha
  | false =>
    rcases activate_cases hr readable with ⟨-, he⟩ | ⟨p, e₁, hp, he₁, he⟩
    · rw [he] at ha
      cases ha
    · rw [he] at ha
      obtain ⟨rfl, hid⟩ := Prod.mk.inj ha
      split at hid
      · obtain rfl := Option.some.inj hid
        have hnew : (e.links.set e.nextStreamId (.new false)).get? e.nextStreamId =
            some (.new false) := JsMap.get?_set_self _ _ _
        rw [he₁]
        split
        · exact ⟨_, hnew, Link.ofLeg_new⟩
        · rcases sendOut_cases (h.attach hp).1 ⟨e.nextStreamId, .openStream⟩ with hs | ⟨-, hsent⟩
          · exact (admits_shut (n := 0) hs).legs _ _ hnew Link.ofLeg_new
          · rw [hsent]
            exact ⟨_, hnew, Link.ofLeg_new⟩
      · cases hid

end Entry

/-! ## The sources -/

namespace Source

variable {s s' : Source}

theorem ofLeg_goes (h : s.link.OfLeg) (hg : Goes s s') : s'.link.OfLeg := by
  have hclose : ∀ s : Source, s.link.OfLeg → s.close.link.OfLeg := by
    intro s h
    unfold close
    split
    · exact h
    · exact h.destroy
  refine hg.1.keeps (P := fun s => s.link.OfLeg) (fun {s s'} hm h => ?_) h
  cases hm with
  | quiet => exact h
  | @send st f hs =>
    have hown : ∀ g ∈ [f], g.cells = g.dataOf 0 := by
      intro g hg
      rw [List.mem_singleton.mp hg]
      cases hs <;> rfl
    unfold sendOut
    split
    · exact h
    · split
      · exact hclose _ h
      · exact h.admits hown
  | close => exact hclose s h
  | fault => exact h

theorem ofLeg_start (spliced : Bool) : (start spliced).link.OfLeg := by
  cases spliced with
  | false => exact Link.ofLeg_new
  | true =>
    have hown : ∀ f ∈ [(⟨0, .openStream⟩ : Frame)], f.cells = f.dataOf 0 := by
      intro f hf
      rw [List.mem_singleton.mp hf]
      rfl
    exact Link.ofLeg_new.admits hown

theorem ofLeg_step (h : s.link.OfLeg) (hs : s.Sane) (ev : SourceEvent) : (s.step ev).link.OfLeg := by
  have hlink : ∀ {lev : LinkEvent}, lev ≠ .take → (s.link.progress lev).OfLeg := fun hlev =>
    h.progress hlev
  cases ev with
  | write now data => exact ofLeg_goes h (goes_write hs now data)
  | resumed now ok => exact ofLeg_goes h (goes_resumed hs now ok)
  | final => exact ofLeg_goes h (goes_final hs)
  | read => exact ofLeg_goes h (goes_read hs)
  | destroy => exact ofLeg_goes h (goes_destroy hs)
  | runDestroy => exact ofLeg_goes h (goes_runDestroy hs)
  | closeStream => exact ofLeg_goes h (goes_closeStream hs)
  | idleTimer => exact ofLeg_goes h (goes_idleFired hs)
  | returnTimer => exact ofLeg_goes h (goes_returnFired hs)
  | close => exact ofLeg_goes h (goes_close hs)
  | nextSend => exact hlink (show LinkEvent.nextSend ≠ .take from nofun)
  | selectFrom k => exact hlink (show LinkEvent.selectFrom k ≠ .take from nofun)
  | settle data => exact hlink (show LinkEvent.settle data ≠ .take from nofun)

end Source

/-! ## The whole route -/

namespace FlowRoute

variable {honest : Nat → Bool} {s : FlowRoute} {e' : Entry} {id : Nat} {src src' : Source}

/-- The write of the frame that is read has been reported. -/
def reported (s : FlowRoute) : FlowEvent → Bool
  | .fromSource _ id _ => ((s.sources.get? id).map fun src => src.link.reported).getD true
  | .fromDest _ => s.dest.link.reported
  | .toSource _ id => ((s.entry.links.get? id).map Link.reported).getD true
  | .toDest .. => s.entry.link.reported
  | .activate _ | .entry _ | .forged .. | .source .. | .dest _ => true

/-- The invariant of the queues. -/
structure Prompted (s : FlowRoute) : Prop where
  entry : s.entry.link.Prompt
  dest : s.dest.link.Prompt
  up : ∀ id src, s.sources.get? id = some src → src.link.OfLeg
  down : ∀ id src, s.sources.get? id = some src →
    ∃ l, s.entry.links.get? id = some l ∧ l.OfLeg

theorem prompted_new (spliced : Bool) (others : Nat) : (new spliced others).Prompted where
  entry := Nat.zero_le _
  dest := Nat.zero_le _
  up _ _ h := by cases h
  down _ _ h := by cases h

theorem Prompted.setEntry (h : s.Prompted) {n : Nat} (ha : Entry.Admits n s.entry e') :
    Prompted { s with entry := e' } where
  entry := ha.link h.entry
  dest := h.dest
  up := h.up
  down id src hs := by
    obtain ⟨l, hl, ho⟩ := h.down id src hs
    exact ha.legs id l hl ho

theorem Prompted.setSource (h : s.Prompted) (hlink : e'.link.Prompt) (hsrc : src.link.OfLeg)
    (hleg : ∃ l, e'.links.get? id = some l ∧ l.OfLeg)
    (hothers : ∀ id', id' ≠ id → ∀ l, s.entry.links.get? id' = some l → l.OfLeg →
      ∃ l', e'.links.get? id' = some l' ∧ l'.OfLeg) :
    Prompted { s with entry := e', sources := s.sources.set id src } := by
  refine ⟨hlink, h.dest, fun id' src' h' => ?_, fun id' src' h' => ?_⟩
  · rcases JsMap.get?_set_cases h' with ⟨-, rfl⟩ | ⟨-, h'⟩
    · exact hsrc
    · exact h.up id' src' h'
  · rcases JsMap.get?_set_cases h' with ⟨rfl, -⟩ | ⟨hne, h'⟩
    · exact hleg
    · obtain ⟨l, hl, ho⟩ := h.down id' src' h'
      exact hothers id' hne l hl ho

theorem prompt_receive {d : Dest} (h : d.Gone ∨ d.Open) (hp : d.link.Prompt) (now : Int) (f : Frame)
    (a : Acceptance) : (Dest.receive now d (.frame f) a).link.Prompt := by
  rcases h with hg | ho
  · rw [show Dest.receive now d (.frame f) a = d from if_pos hg.closed]
    exact hp
  · cases hf : decodeLogical (.frame f) with
    | none =>
      have hend : Dest.Ended f d (d.fault .decode).destroy := Dest.ended_fail ho trivial
      rw [Dest.receive_undecoded ho now hf a, hend.link]
      exact Link.prompt_destroy _
    | some f' =>
      obtain rfl := Payload.frame.inj (decodeLogical_eq_some hf).1
      cases Dest.reads_receive ho now hf a with
      | ended he =>
        rw [he.link]
        exact Link.prompt_destroy _
      | took ho' ht ha =>
        obtain ⟨fs, hl⟩ := ht.link
        rw [hl]
        exact hp.admits fs

theorem Prompted.activate (h : s.Prompted) (hb : s.Balanced) (readable : Bool) :
    (s.activate honest readable).Prompted := by
  have hk := hb.trunk.entry
  have hadm : Entry.Admits 0 s.entry (s.entry.activate readable).1 :=
    Entry.admits_own hk (show Entry.own (.activate readable) = true from rfl)
  unfold FlowRoute.activate
  split
  · next entry he =>
    rw [he] at hadm
    exact h.setEntry hadm
  · next entry id he =>
    rw [he] at hadm
    cases honest id with
    | false => exact h.setEntry hadm
    | true =>
      have hleg : ∃ l, entry.links.get? id = some l ∧ l.OfLeg := by
        rcases hk with hg | ⟨ho, -, -⟩
        · unfold Entry.activate at he
          rw [if_pos (by simp [Entry.refuses, hg.closed])] at he
          cases he
        · exact Entry.ofLeg_activate ho he
      exact h.setSource (hadm.link h.entry) (Source.ofLeg_start _) hleg
        fun id' _ l hl ho => hadm.legs id' l hl ho

theorem Prompted.fromSource (h : s.Prompted) (hb : s.Balanced) (now : Int) (id : Nat)
    (udx : Option (Nat × Nat))
    (hr : ((s.sources.get? id).map fun src => src.link.reported).getD true = true) :
    (s.fromSource now id udx).Prompted := by
  unfold FlowRoute.fromSource
  split
  · exact h
  · next src hsrc =>
    rw [hsrc] at hr
    split
    · exact h
    · next f l htake =>
      have hadm := Entry.admits_fromSource hb.trunk.entry now id (.frame f) udx
      obtain ⟨leg, hleg, ho⟩ := h.down id src hsrc
      exact h.setSource (hadm.link h.entry) ((h.up id src hsrc).take hr htake)
        (hadm.legs id leg hleg ho) fun id' _ l hl ho => hadm.legs id' l hl ho

theorem Prompted.fromDest (h : s.Prompted) (hb : s.Balanced) (now : Int)
    (hr : s.dest.link.reported = true) : (s.fromDest now).Prompted := by
  unfold FlowRoute.fromDest
  split
  · exact h
  · next f l htake =>
    have hs := h.setEntry (Entry.admits_receive hb.trunk.entry now (.frame f))
    exact ⟨hs.entry, Link.prompt_take hr htake, hs.up, hs.down⟩

theorem Prompted.toSource (h : s.Prompted) (hb : s.Balanced) (now : Int) (id : Nat)
    (hr : ((s.entry.links.get? id).map Link.reported).getD true = true) :
    (s.toSource now id).Prompted := by
  unfold FlowRoute.toSource
  split
  · next src leg hsrc hleg =>
    rw [hleg] at hr
    split
    · exact h
    · next f l htake =>
      obtain ⟨leg', hleg', ho⟩ := h.down id src hsrc
      obtain rfl := Option.some.inj (hleg.symm.trans hleg')
      obtain ⟨s₁, ht, hg⟩ := Source.receive_reads (hb.sane id src hsrc) now f
      have hup : s₁.link.OfLeg := ht.link ▸ h.up id src hsrc
      rw [Entry.step_legTake hleg htake]
      exact h.setSource h.entry (Source.ofLeg_goes hup hg)
        ⟨l, JsMap.get?_set_self _ _ _, ho.take hr htake⟩
        fun id' hne l' hl' ho' => ⟨l', (JsMap.get?_set_ne _ _ hne).trans hl', ho'⟩
  · exact h

theorem Prompted.toDest (h : s.Prompted) (hb : s.Balanced) (now : Int) (a : Acceptance)
    (hr : s.entry.link.reported = true) : (s.toDest now a).Prompted := by
  unfold FlowRoute.toDest
  split
  · exact h
  · next f l htake =>
    have he : s.entry.step (.link .take) = { s.entry with link := l } := by
      show ({ s.entry with link := (s.entry.link.take.map Prod.snd).getD s.entry.link } : Entry) = _
      rw [htake]
      rfl
    rw [he]
    exact ⟨Link.prompt_take hr htake, prompt_receive hb.trunk.dest h.dest now f a, h.up, h.down⟩

theorem Prompted.step (h : s.Prompted) (hb : s.Balanced) {ev : FlowEvent}
    (hr : s.reported ev = true) : (s.step honest ev).Prompted := by
  have hk := hb.trunk.entry
  cases ev with
  | activate readable => exact h.activate hb readable
  | entry ev =>
    by_cases hev : Entry.own ev = true
    · rw [step_entry hev]
      exact h.setEntry (Entry.admits_own hk hev)
    · rw [step_entry_read hev]
      exact h
  | fromSource now id udx => exact h.fromSource hb now id udx hr
  | forged now id payload udx =>
    cases hid : honest id with
    | true =>
      rw [step_forged_honest hid]
      exact h
    | false =>
      rw [step_forged hid]
      exact h.setEntry (Entry.admits_fromSource hk now id payload udx)
  | fromDest now => exact h.fromDest hb now hr
  | source id ev =>
    cases hsrc : s.sources.get? id with
    | none =>
      rw [step_source_none hsrc]
      exact h
    | some src =>
      rw [step_source hsrc]
      exact h.setSource h.entry (Source.ofLeg_step (h.up id src hsrc) (hb.sane id src hsrc) ev)
        (h.down id src hsrc) fun _ _ l hl ho => ⟨l, hl, ho⟩
  | toSource now id => exact h.toSource hb now id hr
  | dest ev =>
    cases hev : ev.isReceive with
    | true =>
      rw [step_dest_receive hev]
      exact h
    | false =>
      have hown : Dest.Own s.dest (s.dest.step ev) := by
        rcases hb.trunk.dest with hg | ho
        · exact hg.own_step hev
        · exact Dest.own_step ho hev
      rw [step_dest hev]
      exact ⟨h.entry, hown.prompt h.dest, h.up, h.down⟩
  | toDest now a => exact h.toDest hb now a hr

/-- **No DATA frame meets the bound of a queue.** As long as the write of each frame is
reported before the other end reads it, what may still be sent and the DATA frames pending on
the link fit the circuit's window together: on the leg of an honest source whose record is
registered both ways, and on the shared link while its end is open. -/
theorem data_admitted (spliced : Bool) (others : Nat) (honest : Nat → Bool) (evs : List FlowEvent)
    (hr : AllMeet (step honest) (fun s ev => s.reported ev = true) (new spliced others) evs) :
    let s := run honest (new spliced others) evs
    (∀ id src r, s.sources.get? id = some src → s.entry.sources.get? id = some r →
      src.stream.circuitCredit + src.link.pendingData ≤ circuitWindow ∧
        ∃ l, s.entry.links.get? id = some l ∧
          s.entry.reverseReceiveCredit + l.pendingData ≤ circuitWindow) ∧
      (s.entry.closed = false →
        s.entry.forwardPool.granted + s.entry.link.pendingData ≤ circuitWindow) ∧
      (s.dest.closed = false →
        s.dest.sendPool.granted + s.dest.link.pendingData ≤ circuitWindow) := by
  have hinv := AllMeet.inv (I := fun s => s.Balanced ∧ s.Honest honest ∧ s.Prompted)
    ⟨balanced_new spliced others, (fun _ _ hs => by cases hs), prompted_new spliced others⟩
    (fun s ev ⟨hb, hh, hp⟩ hr => ⟨(hb.step hh ev).1, hh.step ev, hp.step hb hr⟩) hr
  change Balanced (run honest (new spliced others) evs) ∧ _ ∧ Prompted (run _ _ evs) at hinv
  intro s
  obtain ⟨hb, -, hp⟩ := hinv
  change s.Balanced at hb
  change s.Prompted at hp
  have hforth := hb.trunk.fit.forth .circuit
  have hback := hb.trunk.fit.back .circuit
  obtain ⟨-, hlent, -⟩ := Trunk.dest_inFlight hb.trunk.dest
  obtain ⟨-, hlent', -⟩ := Trunk.entry_inFlight hb.trunk.entry hb.trunk.window
  refine ⟨fun id src r hsrc hrec => ?_, fun hc => ?_, fun hc => ?_⟩
  · obtain ⟨leg, l, hleg, hl, hj⟩ := (hb.joined id src hsrc).joint r hrec
    rcases hb.trunk.entry with hg | ⟨ho, hsum, -⟩
    · rw [hg.sources] at hrec
      cases hrec
    obtain ⟨l', hl', hdown⟩ := hp.down id src hsrc
    obtain rfl := Option.some.inj (hl.symm.trans hl')
    have hpool := ho.pool.sum
    refine ⟨?_, l, hl, ?_⟩
    · have h₁ := (hp.up id src hsrc).pending
      have h₂ := hj.balances.granted
      have h₃ := JsMap.le_total hleg fun _ leg => leg.granted
      have h₄ : weigh (Frame.dataOf 0) src.link.frames ≤ weigh Frame.uses src.link.frames :=
        weigh_le (fun f => Nat.le_add_right _ _) _
      simp only [Pool.granted] at hpool
      omega
    · have h₁ := hdown.pending
      have h₂ := hj.balances.circuit
      have h₃ := (hb.sane id src hsrc).credit
      have h₄ := JsMap.le_total hrec fun _ r => r.reverseInFlight
      simp only [Entry.reverseSum] at hsum
      omega
  · have hpool := hb.trunk.entry_pool hc
    have hprompt : s.entry.link.pendingData ≤ s.entry.link.total Frame.cells := hp.entry
    simp only [Entry.account, hc, Bool.false_eq_true, if_false, trunk] at hforth
    omega
  · have hpool := hb.trunk.dest_pool hc
    have hprompt : s.dest.link.pendingData ≤ s.dest.link.total Frame.cells := hp.dest
    simp only [Dest.account, hc, Bool.false_eq_true, if_false, trunk] at hback
    omega

/-- DATA both ways, with every write reported before the frame is read. -/
def promptExchange : List FlowEvent :=
  [.activate true, .entry (.link .nextSend), .toDest 0 ⟨true, none, true⟩,
    .source 2 (.write 0 [1, 2, 3]), .source 2 .nextSend, .fromSource 0 2 none,
    .entry (.legLink 2 .nextSend), .toSource 0 2, .source 2 (.resumed 0 true), .source 2 .nextSend,
    .source 2 (.settle true), .fromSource 1 2 none, .dest (.write 2 2 [5]), .dest .nextSend,
    .dest (.settle true), .fromDest 3, .source 2 (.resumed 4 true), .source 2 (.write 4 [6])]

theorem data_admitted_exchange :
    let s := run (· == 2) (new false 0) promptExchange
    s.entry.link.pendingData = 1 ∧ s.entry.closed = false ∧
      s.entry.forwardPool.granted + s.entry.link.pendingData ≤ circuitWindow ∧
      ∃ src, s.sources.get? 2 = some src ∧ 0 < src.stream.circuitCredit ∧
        src.stream.circuitCredit + src.link.pendingData ≤ circuitWindow := by
  intro s
  have h := data_admitted false 0 (· == 2) promptExchange (by decide +kernel)
  have hsrc : (s.sources.get? 2).any (fun src => decide (0 < src.stream.circuitCredit)) = true := by
    decide +kernel
  have hrec : (s.entry.sources.get? 2).isSome = true := by decide +kernel
  obtain ⟨src, hsrc, hcredit⟩ := (Option.any_eq_true _ _).mp hsrc
  obtain ⟨r, hrec⟩ := Option.isSome_iff_exists.mp hrec
  exact ⟨by decide +kernel, by decide +kernel, h.2.1 (by decide +kernel), src, hsrc,
    of_decide_eq_true hcredit, (h.1 2 src r hsrc hrec).1⟩

end FlowRoute

end HyperDht.Private
