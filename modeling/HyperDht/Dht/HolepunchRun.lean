import HyperDht.Dht.HolepunchIds

/-!
# Runs of a server's handshakes

As long as the table is not emptied under them, handshakes that are under way hold their slots.
After a suspend those that have lost theirs see that the server is stopped, unless it was
resumed in the meantime.
-/

namespace HyperDht.HolepunchIds

/-- The table was emptied under handshakes that may not have noticed yet. None replies while the
server is stopped, and those that have taken a slot since have no reply. -/
structure Dark (s : Server) : Prop where
  stopped : s.stopped = true
  active : s.active = []
  quiet : ∀ i h, s.slot i = some h → (s.handshakes h).phase.reply = none
  apart : ∀ h h', Unsent s h → Unsent s h' → (s.handshakes h).id = (s.handshakes h').id → h = h'

structure Inv (s : Server) : Prop where
  slots : ∀ i h, s.slot i = some h → h < s.next ∧ (s.handshakes h).id = i
  active : ∀ h ∈ s.active, Holds s h
  connected : ∀ k h, s.connects.get? k = some h → Holds s h ∧ (s.handshakes h).k = k
  slotted : ∀ i h, s.slot i = some h → s.connects.get? (s.handshakes h).k = some h
  held : (∀ h, UnderWay s h → Holds s h) ∨ Dark s

variable {s : Server}

theorem Holds.eq {h h' : Nat} (hh : Holds s h) (hh' : Holds s h')
    (hid : (s.handshakes h).id = (s.handshakes h').id) : h = h' := by
  unfold Holds at hh hh'
  rw [hid] at hh
  exact Option.some.inj (hh.symm.trans hh')

theorem Inv.good (h : Inv s) : Good s := by
  refine ⟨h.active, fun a b ha hb hid => ?_⟩
  rcases h.held with hheld | hdark
  · have hholds : ∀ c, Unsent s c ∨ c ∈ s.active → Holds s c := by
      rintro c (hc | hc)
      · exact hheld c hc.2
      · exact h.active c hc
    exact (hholds a ha).eq (hholds b hb) hid
  · have hunsent : ∀ c, Unsent s c ∨ c ∈ s.active → Unsent s c := by
      rintro c (hc | hc)
      · exact hc
      · simp [hdark.active] at hc
    exact hdark.apart a b (hunsent a ha) (hunsent b hb) hid

theorem inv_start (shareLocalAddress : Bool) : Inv (.start shareLocalAddress) := by
  constructor
  · intro i h hslot
    simp [Server.start, Server.slot, slotOf] at hslot
  · intro h hactive
    simp [Server.start] at hactive
  · intro k h hk
    simp [Server.start] at hk
  · intro i h hslot
    simp [Server.start, Server.slot, slotOf] at hslot
  · refine .inl fun h hway => ?_
    simp [UnderWay, Server.start, Phase.awaiting, Phase.reply] at hway

/-! ## Handshakes that go on -/

theorem goesOn_update {stopped : Bool} {handshakes : Nat → Handshake} {h : Nat} {hs : Handshake}
    (hgo : GoesOn stopped (handshakes h) hs) (h' : Nat) :
    GoesOn stopped (handshakes h') (Function.update handshakes h hs h') := by
  by_cases heq : h' = h
  · subst heq
    rw [Function.update_self]
    exact hgo
  · rw [Function.update_of_ne heq]
    exact .refl _

theorem GoesOn.underWay {handshakes : Nat → Handshake}
    (hgo : ∀ h, GoesOn s.stopped (s.handshakes h) (handshakes h)) {h : Nat}
    (hway : UnderWay { s with handshakes } h) : UnderWay s h := by
  cases ha : (s.handshakes h).phase.awaiting with
  | true => exact .inl ha
  | false =>
    unfold UnderWay at hway
    dsimp only at hway
    rw [(hgo h).awaiting ha] at hway
    exact hway

theorem GoesOn.unsent {handshakes : Nat → Handshake} (hstopped : s.stopped = true)
    (hgo : ∀ h, GoesOn s.stopped (s.handshakes h) (handshakes h)) {h : Nat}
    (hunsent : Unsent { s with handshakes } h) : Unsent s h := by
  refine ⟨?_, GoesOn.underWay hgo hunsent.2⟩
  rcases (hgo h).reply hstopped with hnone | hsame
  · have := hunsent.1
    dsimp only at this
    simp [hnone] at this
  · rw [← hsame]
    exact hunsent.1

theorem Inv.goesOn (h : Inv s) {handshakes : Nat → Handshake}
    (hgo : ∀ h, GoesOn s.stopped (s.handshakes h) (handshakes h)) :
    Inv { s with handshakes } := by
  have hholds : ∀ a, Holds s a → Holds { s with handshakes } a := by
    intro a ha
    unfold Holds
    dsimp only
    rw [(hgo a).id]
    exact ha
  constructor
  · intro i a ha
    obtain ⟨hlt, hid⟩ := h.slots i a ha
    exact ⟨hlt, (hgo a).id.trans hid⟩
  · exact fun a ha => hholds a (h.active a ha)
  · intro k a ha
    obtain ⟨hold, hk⟩ := h.connected k a ha
    exact ⟨hholds a hold, (hgo a).k.trans hk⟩
  · intro i a ha
    dsimp only
    rw [(hgo a).k]
    exact h.slotted i a ha
  · rcases h.held with hheld | hdark
    · exact .inl fun a ha => hholds a (hheld a (GoesOn.underWay hgo ha))
    · refine .inr ⟨hdark.stopped, hdark.active, fun i a ha => ?_, fun a b ha hb hid => ?_⟩
      · dsimp only
        rcases (hgo a).reply hdark.stopped with hnone | hsame
        · exact hnone
        · rw [hsame]
          exact hdark.quiet i a ha
      · dsimp only at hid
        rw [(hgo a).id, (hgo b).id] at hid
        exact hdark.apart a b (GoesOn.unsent hdark.stopped hgo ha)
          (GoesOn.unsent hdark.stopped hgo hb) hid

theorem goesOn_of_phase {stopped : Bool} {hs hs' : Handshake} (hk : hs'.k = hs.k)
    (hid : hs'.id = hs.id) (hphase : hs'.phase = hs.phase) : GoesOn stopped hs hs' :=
  ⟨hk, hid, fun _ => hphase, fun _ => .inr (by rw [hphase])⟩

theorem Inv.continue (h : Inv s) (a : Nat) (o : Outcome) : Inv (s.continue a o) :=
  h.goesOn (goesOn_update (goesOn_resume _ _ _ _))

theorem Inv.onrawstreamclose (h : Inv s) (a : Nat) : Inv (s.onrawstreamclose a) := by
  unfold Server.onrawstreamclose
  split
  · exact h
  · exact h.goesOn (goesOn_update (goesOn_of_phase (by simp) (by simp) (by simp)))

theorem Inv.onsocket (h : Inv s) (a : Nat) : Inv (s.onsocket a) := by
  unfold Server.onsocket
  dsimp only
  split
  · exact h.goesOn (goesOn_update (goesOn_of_phase (by simp) (by simp) (by simp)))
  · exact h

/-! ## Calls -/

theorem Inv.join (h : Inv s) {k : List UInt8} {a : Nat} (ha : s.connects.get? k = some a) :
    Inv { s with waiting := a :: s.waiting } := by
  have hold := (h.connected k a ha).1
  refine ⟨h.slots, h.active, h.connected, h.slotted, ?_⟩
  rcases h.held with hheld | hdark
  · refine .inl fun b hb => ?_
    by_cases heq : b = a
    · exact heq ▸ hold
    · refine hheld b ?_
      simpa [UnderWay, heq] using hb
  · have hunsent : ∀ b, Unsent { s with waiting := a :: s.waiting } b → Unsent s b := by
      rintro b ⟨hreply, hway⟩
      have hne : b ≠ a := by
        rintro rfl
        have hnone := hdark.quiet _ _ hold
        dsimp only at hreply
        simp [hnone] at hreply
      refine ⟨hreply, ?_⟩
      simpa [UnderWay, hne] using hway
    exact .inr ⟨hdark.stopped, hdark.active, hdark.quiet,
      fun b c hb hc => hdark.apart b c (hunsent b hb) (hunsent c hc)⟩

theorem Inv.add (h : Inv s) {k : List UInt8} (hk : s.connects.get? k = none) (created : Bool) :
    Inv { s.addHandshake k created with
      connects := s.connects.set k s.next
      waiting := s.next :: s.waiting } := by
  obtain ⟨hfree, htable⟩ := slotOf_takeSlot s.holepunches s.next
  set id := (takeSlot s.holepunches s.next).1 with hid
  set s' : Server := { s.addHandshake k created with
    connects := s.connects.set k s.next
    waiting := s.next :: s.waiting } with hs'
  have hnew : s'.handshakes s.next =
      ⟨k, id, if created then .recv else .rejected, false, false, false⟩ :=
    Function.update_self _ _ _
  have hreply : (s'.handshakes s.next).phase.reply = none := by
    rw [hnew]
    cases created <;> rfl
  have hother : ∀ a, a ≠ s.next → s'.handshakes a = s.handshakes a := fun a ha =>
    Function.update_of_ne ha _ _
  have hslot : ∀ i, s'.slot i = if i = id then some s.next else s.slot i := htable
  have hholdsNew : Holds s' s.next := by
    unfold Holds
    rw [hslot, hnew, if_pos rfl]
  have hold : ∀ i a, s.slot i = some a → a ≠ s.next ∧ i ≠ id := by
    intro i a ha
    refine ⟨(h.slots i a ha).1.ne, ?_⟩
    rintro rfl
    have : s.slot id = none := hfree
    rw [this] at ha
    exact Option.some_ne_none _ ha.symm
  have hkeep : ∀ a, Holds s a → Holds s' a := by
    intro a ha
    obtain ⟨hne, hid⟩ := hold _ a ha
    unfold Holds
    rw [hslot, hother a hne, if_neg hid]
    exact ha
  have hway : ∀ a, a ≠ s.next → UnderWay s' a → UnderWay s a := by
    intro a hne ha
    unfold UnderWay at ha
    rw [hother a hne] at ha
    simpa [UnderWay, hs', hne] using ha
  constructor
  · intro i a ha
    rw [hslot] at ha
    split at ha
    · next heq =>
      obtain rfl := Option.some.inj ha
      rw [hnew]
      exact ⟨Nat.lt_succ_self _, heq.symm⟩
    · obtain ⟨hlt, hid⟩ := h.slots i a ha
      rw [hother a hlt.ne]
      exact ⟨Nat.lt_succ_of_lt hlt, hid⟩
  · exact fun a ha => hkeep a (h.active a ha)
  · intro k' a ha
    replace ha : (s.connects.set k s.next).get? k' = some a := ha
    rw [JsMap.get?_set] at ha
    split at ha
    · next heq =>
      obtain rfl := Option.some.inj ha
      exact ⟨hholdsNew, by rw [hnew, heq]⟩
    · obtain ⟨hholds, hk'⟩ := h.connected k' a ha
      rw [hother a (hold _ a hholds).1]
      exact ⟨hkeep a hholds, hk'⟩
  · intro i a ha
    show (s.connects.set k s.next).get? _ = some a
    rw [hslot] at ha
    split at ha
    · obtain rfl := Option.some.inj ha
      rw [hnew, JsMap.get?_set_self]
    · have hka := h.slotted i a ha
      rw [hother a (hold i a ha).1, JsMap.get?_set_ne _ _ ?_]
      · exact hka
      · rintro heq
        rw [heq, hk] at hka
        exact Option.some_ne_none _ hka.symm
  · rcases h.held with hheld | hdark
    · refine .inl fun a ha => ?_
      by_cases hne : a = s.next
      · exact hne ▸ hholdsNew
      · exact hkeep a (hheld a (hway a hne ha))
    · have hunsent : ∀ a, Unsent s' a → a ≠ s.next ∧ Unsent s a := by
        rintro a ⟨hsome, ha⟩
        have hne : a ≠ s.next := by
          rintro rfl
          simp [hreply] at hsome
        refine ⟨hne, ?_, hway a hne ha⟩
        rw [← hother a hne]
        exact hsome
      refine .inr ⟨hdark.stopped, hdark.active, fun i a ha => ?_, fun a b ha hb hab => ?_⟩
      · rw [hslot] at ha
        split at ha
        · obtain rfl := Option.some.inj ha
          exact hreply
        · rw [hother a (hold i a ha).1]
          exact hdark.quiet i a ha
      · obtain ⟨hna, ha⟩ := hunsent a ha
        obtain ⟨hnb, hb⟩ := hunsent b hb
        rw [hother a hna, hother b hnb] at hab
        exact hdark.apart a b ha hb hab

theorem Inv.onpeerhandshake (h : Inv s) (k : List UInt8) (created : Bool) :
    Inv (s.onpeerhandshake k created) := by
  unfold Server.onpeerhandshake
  split
  · next a ha => exact h.join ha
  · next hk => exact h.add hk created

theorem Inv.waiting (h : Inv s) {waiting : List Nat} (hsub : ∀ a ∈ waiting, a ∈ s.waiting) :
    Inv { s with waiting } := by
  have hway : ∀ a, UnderWay { s with waiting } a → UnderWay s a := by
    rintro a (ha | ⟨hreply, ha⟩)
    · exact .inl ha
    · exact .inr ⟨hreply, hsub a ha⟩
  refine ⟨h.slots, h.active, h.connected, h.slotted, ?_⟩
  rcases h.held with hheld | hdark
  · exact .inl fun a ha => hheld a (hway a ha)
  · exact .inr ⟨hdark.stopped, hdark.active, hdark.quiet, fun a b ha hb =>
      hdark.apart a b ⟨ha.1, hway a ha.2⟩ ⟨hb.1, hway b hb.2⟩⟩

theorem Inv.answer (h : Inv s) (a : Nat) : Inv (s.answer a) := by
  unfold Server.answer
  split
  · next hcall =>
    have hwaiting : Inv { s with waiting := s.waiting.erase a } :=
      h.waiting fun b hb => List.mem_of_mem_erase hb
    dsimp only
    split
    · next hreply =>
      simp only [Bool.and_eq_true, Bool.not_eq_true', decide_eq_true_eq] at hreply
      obtain ⟨hrun, hphase⟩ := hreply
      have hheld : ∀ b, UnderWay s b → Holds s b := by
        refine h.held.resolve_right fun hdark => ?_
        rw [hdark.stopped] at hrun
        exact Bool.noConfusion hrun
      have hholds : Holds s a := hheld a (.inr ⟨by rw [hphase]; rfl, hcall.1⟩)
      refine ⟨hwaiting.slots, fun b hb => ?_, hwaiting.connected, hwaiting.slotted, ?_⟩
      · rcases List.mem_cons.mp hb with rfl | hb
        · exact hholds
        · exact h.active b hb
      · refine hwaiting.held.imp id fun hdark => ?_
        have := hdark.stopped
        change s.stopped = true at this
        rw [this] at hrun
        exact Bool.noConfusion hrun
    · exact hwaiting
  · exact h

/-! ## Clearing -/

theorem Inv.clear (h : Inv s) {a : Nat} (hway : ¬ UnderWay s a) : Inv (s.clear a) := by
  unfold Server.clear
  dsimp only
  split
  · exact h
  · next hholds =>
    have hholds : Holds s a := not_not.mp hholds
    set s' : Server := { s with
      holepunches := (s.holepunches.set (s.handshakes a).id none).rdropWhile (· = none)
      connects := s.connects.delete (s.handshakes a).k
      active := s.active.filter (· ≠ a) }
    have hslot : ∀ i, s'.slot i = if i = (s.handshakes a).id then none else s.slot i :=
      slotOf_clear hholds
    have hkeep : ∀ b, b ≠ a → Holds s b → Holds s' b := by
      intro b hne hb
      unfold Holds
      rw [hslot, if_neg fun hid => hne (hb.eq hholds hid)]
      exact hb
    have hold : ∀ i b, s'.slot i = some b → s.slot i = some b ∧ b ≠ a := by
      intro i b hb
      rw [hslot] at hb
      split at hb
      · exact (Option.some_ne_none b hb.symm).elim
      · next hne =>
        refine ⟨hb, ?_⟩
        rintro rfl
        exact hne (h.slots i b hb).2.symm
    constructor
    · exact fun i b hb => h.slots i b (hold i b hb).1
    · intro b hb
      obtain ⟨hb, hne⟩ := List.mem_filter.mp hb
      exact hkeep b (by simpa using hne) (h.active b hb)
    · intro k b hb
      replace hb : (s.connects.delete (s.handshakes a).k).get? k = some b := hb
      rw [JsMap.get?_delete] at hb
      split at hb
      · exact (Option.some_ne_none b hb.symm).elim
      · next hne =>
        obtain ⟨hb, hk⟩ := h.connected k b hb
        refine ⟨hkeep b ?_ hb, hk⟩
        rintro rfl
        exact hne hk.symm
    · intro i b hb
      obtain ⟨hb, hne⟩ := hold i b hb
      have hkb := h.slotted i b hb
      show (s.connects.delete (s.handshakes a).k).get? _ = some b
      rw [JsMap.get?_delete_ne _ ?_]
      · exact hkb
      · -- two handshakes of one key would share an entry
        intro heq
        rw [heq, h.slotted _ a hholds] at hkb
        exact hne (Option.some.inj hkb).symm
    · rcases h.held with hheld | hdark
      · refine .inl fun b hb => hkeep b ?_ (hheld b hb)
        rintro rfl
        exact hway hb
      · refine .inr ⟨hdark.stopped, ?_, fun i b hb => hdark.quiet i b (hold i b hb).1, hdark.apart⟩
        show s.active.filter (· ≠ a) = []
        rw [hdark.active]
        rfl

theorem Inv.ontimer (h : Inv s) {a : Nat} (hway : ¬ UnderWay s a) : Inv (s.ontimer a) := by
  unfold Server.ontimer
  split
  · have hsame : (s.clear a).handshakes = s.handshakes := by
      unfold Server.clear
      dsimp only
      split <;> rfl
    refine (h.clear hway).goesOn (goesOn_update ?_)
    rw [hsame]
    exact goesOn_of_phase rfl rfl rfl
  · exact h

theorem Inv.clearAll (h : Inv s) {suspended closing : Bool} (hstop : (closing || suspended) = true) :
    Inv { s.clearAll with suspended, closing } := by
  have hempty : ∀ i, Server.slot { s.clearAll with suspended, closing } i = none := fun i => by
    simp [Server.slot, slotOf, Server.clearAll]
  have hgo : ∀ a, GoesOn false (s.handshakes a) (s.clearAll.handshakes a) := by
    intro a
    unfold Server.clearAll
    dsimp only
    split
    · exact goesOn_of_phase rfl rfl rfl
    · exact .refl _
  have hphase : ∀ a, (s.clearAll.handshakes a).phase = (s.handshakes a).phase := by
    intro a
    unfold Server.clearAll
    dsimp only
    split <;> rfl
  constructor
  · intro i a ha
    rw [hempty] at ha
    exact (Option.some_ne_none a ha.symm).elim
  · intro a ha
    simp [Server.clearAll] at ha
  · intro k a ha
    simp [Server.clearAll] at ha
  · intro i a ha
    rw [hempty] at ha
    exact (Option.some_ne_none a ha.symm).elim
  · refine .inr ⟨hstop, rfl, fun i a ha => ?_, fun a b ha hb hid => ?_⟩
    · rw [hempty] at ha
      exact (Option.some_ne_none a ha.symm).elim
    · have hunsent : ∀ c, Unsent { s.clearAll with suspended, closing } c → Unsent s c := by
        intro c hc
        unfold Unsent UnderWay at hc
        dsimp only at hc
        rw [hphase] at hc
        exact hc
      replace hid : (s.clearAll.handshakes a).id = (s.clearAll.handshakes b).id := hid
      rw [(hgo a).id, (hgo b).id] at hid
      exact h.good.apart a b (.inl (hunsent a ha)) (.inl (hunsent b hb)) hid

/-! ## Runs -/

theorem Inv.resume (h : Inv s) (hmeets : Meets s .resume) : Inv { s with suspended := false } := by
  refine ⟨h.slots, h.active, h.connected, h.slotted, ?_⟩
  rcases hmeets with hclosing | hheld
  · refine h.held.imp id fun hdark => ⟨?_, hdark.active, hdark.quiet, hdark.apart⟩
    unfold Server.stopped
    dsimp only
    rw [hclosing]
    rfl
  · exact .inl hheld

theorem Inv.close (h : Inv s) : Inv { s with closing := true } := by
  refine ⟨h.slots, h.active, h.connected, h.slotted, ?_⟩
  exact h.held.imp id fun hdark => ⟨rfl, hdark.active, hdark.quiet, hdark.apart⟩

theorem Inv.step (h : Inv s) : ∀ e, Meets s e → Inv (step s e)
  | .handshake k created, _ => h.onpeerhandshake k created
  | .continue a o, _ => h.continue a o
  | .rawStreamClose a, _ => h.onrawstreamclose a
  | .socket a, _ => h.onsocket a
  | .answer a, _ => h.answer a
  | .timer _, hway => h.ontimer hway
  | .suspend, _ => h.clearAll (Bool.or_true s.closing)
  | .resume, hmeets => h.resume hmeets
  | .close, _ => h.close
  | .closeTable, _ => by
    unfold HolepunchIds.step
    dsimp only
    split
    · next hclosing =>
      have hstop : (s.closing || s.suspended) = true := by rw [hclosing]; rfl
      exact h.clearAll hstop
    · exact h

/-- In a run whose resumes and timers meet the condition, every id that was advertised denotes
its handshake in every state, for the holepunch requests that come with it too, and no two
handshakes with a reply have one id. -/
theorem ids_denote {shareLocalAddress : Bool} {events : List Event}
    (h : AllMeet step Meets (.start shareLocalAddress) events) :
    AllGood step Good (.start shareLocalAddress) events ∧
    ∀ done, done <+: events → ∀ a ∈ (done.foldl step (.start shareLocalAddress)).active,
      (done.foldl step (.start shareLocalAddress)).stopped = false →
      (done.foldl step (.start shareLocalAddress)).onpeerholepunch
        ((done.foldl step (.start shareLocalAddress)).handshakes a).id = some a := by
  have hinv : ∀ done, done <+: events → Inv (done.foldl step (.start shareLocalAddress)) :=
    fun done hdone => AllMeet.inv (inv_start shareLocalAddress)
      (fun _ e hinv hmeets => hinv.step e hmeets) fun d e hd => h d e (hd.trans hdone)
  refine ⟨fun done hdone => (hinv done hdone).good, fun done hdone a ha hrun => ?_⟩
  unfold Server.onpeerholepunch
  rw [hrun]
  exact (hinv done hdone).active a ha

/-- A handshake that a suspend ends, and after the resume one that takes its slot. -/
def suspendedRun : List Event :=
  [.handshake [1] true, .suspend, .continue 0 (.recv true), .answer 0, .resume,
    .handshake [2] true, .continue 1 (.recv true), .continue 1 (.firewall false false false),
    .continue 1 (.send true .punch), .answer 1]

theorem ids_denote_suspended :
    (suspendedRun.foldl step (.start false)).onpeerholepunch 0 = some 1 := by
  refine (ids_denote ?_).2 suspendedRun (List.prefix_refl _) 1 (by decide) (by decide)
  refine AllMeet.cons trivial (AllMeet.cons trivial (AllMeet.cons trivial (AllMeet.cons trivial
    (AllMeet.cons (.inr ?_) ?_))))
  · rintro (_ | a) (ha | ⟨ha, -⟩)
    · exact absurd ha (by decide)
    · exact absurd ha (by decide)
    · exact absurd ha Bool.false_ne_true
    · exact absurd ha Bool.false_ne_true
  · exact AllMeet.cons trivial (AllMeet.cons trivial (AllMeet.cons trivial (AllMeet.cons trivial
      (AllMeet.cons trivial fun done e h => absurd h (by simp)))))

/-- A suspend and a resume while a handshake is under way, and another one that takes its slot. -/
def resumedRun : List Event :=
  [.handshake [1] true, .continue 0 (.recv true), .suspend, .resume, .handshake [2] true,
    .continue 0 (.firewall false false false), .continue 0 (.send true .punch), .answer 0]

theorem not_ids_denote :
    ¬ ∀ (shareLocalAddress : Bool) (events : List Event),
      AllGood step Good (.start shareLocalAddress) events := by
  intro h
  have hgood := h false resumedRun resumedRun (List.prefix_refl _)
  have hholds := hgood.holds 0 (by decide)
  exact absurd hholds (by unfold Holds; decide)

end HyperDht.HolepunchIds
