import HyperDht.Private.RouteFacts

/-!
# The handlers keep what the streams tell

`Net` is what holds of the streams and of `entryCircuits` in every state, and `Sound` is what a
step of anyone but the source does: it keeps `Net` and leaves the source's own end of its streams
alone. One lemma for every handler, from `buildSource` to `forward`.
-/

namespace HyperDht.Private.RouteNetwork

open SourceRoute
open SourceRoute.SourceController (requireDiverse)

/-! ## The two streams of a first relay -/

/-- The cells that the second relay got are those that the first took, and the source's cells from
it those that the first took from the second. -/
structure Paired (st next : Stream) : Prop where
  commands : next.commands.sent = st.commands.sent.take st.commands.taken
  replies : st.replies.sent = next.replies.sent.take next.replies.taken
  asked : st.commands.taken ≤ st.commands.sent.length
  given : next.replies.taken ≤ next.replies.sent.length

/-- A stream of a source to a first relay that runs this code. -/
structure PairOK (ss : List Stream) (st : Stream) : Prop where
  closed : st.opened = none → st.replies.sent = [] ∧ st.commands.taken = 0
  paired : ∀ n, st.opened = some n → ∃ next, ss[n]? = some next ∧ Paired st next

def Pairs (honest : Bytes → Bool) (ss : List Stream) : Prop :=
  ∀ (j : Nat) (st : Stream) (second : Bytes), ss[j]? = some st → honest st.server = true →
    st.role = .source second → PairOK ss st

/-- What a step that moves no cell of a source does to a stream. -/
structure Quiet (honest : Bytes → Bool) (st st' : Stream) : Prop where
  asked : st.role ≠ .other → st'.commands.sent = st.commands.sent
  taken : st'.replies.taken = st.replies.taken
  replies : st.replies.sent <+: st'.replies.sent
  source : honest st.server = true → ∀ second, st.role = .source second →
    st'.commands.taken = st.commands.taken ∧ st'.replies.sent = st.replies.sent

theorem Quiet.of_eq {honest : Bytes → Bool} {st st' : Stream}
    (hc : st'.commands = st.commands) (hr : st'.replies = st.replies) : Quiet honest st st' :=
  ⟨fun _ => by rw [hc], by rw [hr], hr ▸ List.prefix_rfl,
    fun _ _ _ => ⟨by rw [hc], by rw [hr]⟩⟩

section Modify

variable {honest : Bytes → Bool} {ss : List Stream} {j : Nat} {st : Stream} {f : Stream → Stream}

theorem getElem?_modify_self (hj : ss[j]? = some st) : (ss.modify j f)[j]? = some (f st) := by
  rw [List.getElem?_modify_eq, hj]
  rfl

theorem getElem?_modify_other {i : Nat} (h : j ≠ i) : (ss.modify j f)[i]? = ss[i]? := by
  rw [List.getElem?_modify]
  simp [h]

theorem getElem?_modify_cases {i : Nat} {a : Stream} (hj : ss[j]? = some st)
    (h : (ss.modify j f)[i]? = some a) : i = j ∧ a = f st ∨ i ≠ j ∧ ss[i]? = some a := by
  by_cases he : i = j
  · subst he
    rw [getElem?_modify_self hj] at h
    exact .inl ⟨rfl, (Option.some.inj h).symm⟩
  · rw [getElem?_modify_other (Ne.symm he)] at h
    exact .inr ⟨he, h⟩

theorem Pairs.modify (h : Pairs honest ss) (hs : StreamsOK honest ss) (hj : ss[j]? = some st)
    (hl : Later st (f st)) (ho : (f st).opened = st.opened) (hq : Quiet honest st (f st)) :
    Pairs honest (ss.modify j f) := by
  intro i a second hi ha hr
  rcases getElem?_modify_cases hj hi with ⟨rfl, rfl⟩ | ⟨hne, hi⟩
  · rw [hl.server] at ha
    rw [hl.role] at hr
    obtain ⟨hclosed, hpaired⟩ := h i st second hj ha hr
    obtain ⟨htaken, hsent⟩ := hq.source ha second hr
    refine ⟨fun hn => ?_, fun n hn => ?_⟩
    · rw [hsent, htaken]
      exact hclosed (ho ▸ hn)
    · rw [ho] at hn
      obtain ⟨next, hnext, hp⟩ := hpaired n hn
      have hlt : i < n := ((hs i st hj).opened n hn).1
      have hasked := hq.asked (by rw [hr]; exact fun he => by cases he)
      exact ⟨next, by rw [getElem?_modify_other (Nat.ne_of_lt hlt)]; exact hnext,
        by rw [hasked, htaken]; exact hp.commands, hsent.trans hp.replies,
        by rw [hasked, htaken]; exact hp.asked, hp.given⟩
  · obtain ⟨hclosed, hpaired⟩ := h i a second hi ha hr
    refine ⟨hclosed, fun n hn => ?_⟩
    obtain ⟨next, hnext, hp⟩ := hpaired n hn
    by_cases he : j = n
    · subst he
      rw [hj] at hnext
      cases hnext
      obtain ⟨-, next, request, hnext, hrole⟩ := (hs i a hi).opened j hn
      rw [hj] at hnext
      cases hnext
      have hasked := hq.asked (by rw [hrole]; exact fun he => by cases he)
      refine ⟨f st, getElem?_modify_self hj, hasked.trans hp.commands, ?_, hp.asked, ?_⟩
      · obtain ⟨more, hmore⟩ := hq.replies
        rw [hq.taken, ← hmore, List.take_append_of_le_length hp.given]
        exact hp.replies
      · rw [hq.taken]
        exact Nat.le_trans hp.given hq.replies.length_le
    · exact ⟨next, by rw [getElem?_modify_other he]; exact hnext, hp⟩

end Modify

/-! ## Steps -/

/-- What stays of a source's own end of its streams. -/
structure Silent (st st' : Stream) : Prop where
  later : Later st st'
  source : ∀ second, st.role = .source second →
    st'.commands.sent = st.commands.sent ∧ st'.replies.taken = st.replies.taken

theorem Silent.refl (st : Stream) : Silent st st := ⟨.refl st, fun _ _ => ⟨rfl, rfl⟩⟩

theorem Silent.trans (a b c : Stream) (h : Silent a b) (h' : Silent b c) : Silent a c := by
  refine ⟨h.later.trans h'.later, fun second hr => ?_⟩
  obtain ⟨hs, ht⟩ := h.source second hr
  obtain ⟨hs', ht'⟩ := h'.source second (h.later.role.trans hr)
  exact ⟨hs'.trans hs, ht'.trans ht⟩

/-- What holds of the streams and of `entryCircuits`. -/
structure Net (honest : Bytes → Bool) (w : World) : Prop where
  streams : StreamsOK honest w.streams
  pairs : Pairs honest w.streams
  circuits : ∀ e ∈ w.entryCircuits,
    Registered honest w.streams e.relay e.wire e.guardDiversity e.entryDiversity

/-- What a step of anyone but the source does. -/
structure Sound (honest : Bytes → Bool) (w w' : World) : Prop where
  net : Net honest w'
  streams : Extends Silent w.streams w'.streams
  source : w'.source = w.source
  routes : w'.routes = w.routes

section Sound

variable {honest : Bytes → Bool} {l : Primitives} {w w' w'' : World} {j : Nat} {st : Stream}

theorem Sound.refl (h : Net honest w) : Sound honest w w := ⟨h, .refl .refl _, rfl, rfl⟩

theorem Sound.trans (h : Sound honest w w') (h' : Sound honest w' w'') : Sound honest w w'' :=
  ⟨h'.net, h.streams.trans Silent.trans h'.streams, h'.source.trans h.source,
    h'.routes.trans h.routes⟩

theorem Net.modify (h : Net honest w) {f : Stream → Stream}
    (hj : w.streams[j]? = some st) (hu : Update honest (w.modify j f).streams j st (f st))
    (hq : Quiet honest st (f st)) : Sound honest w (w.modify j f) := by
  have hx : Ext w.streams (w.streams.modify j f) := Ext.modifyAt hj hu.later
  refine ⟨⟨h.streams.modify hj hu, h.pairs.modify h.streams hj hu.later hu.opened hq,
    fun e he => (h.circuits e he).ext hx⟩, ?_, rfl, rfl⟩
  refine Extends.modify Silent.refl fun a ha => ?_
  rw [hj] at ha
  cases ha
  exact ⟨hu.later, fun second hr =>
    ⟨hq.asked (by rw [hr]; exact fun he => by cases he), hq.taken⟩⟩

theorem Sound.withPending (h : Sound honest w w') (pending : List (Bytes × Bytes)) :
    Sound honest w { w' with pendingEntryRegistrations := pending } :=
  ⟨⟨h.net.streams, h.net.pairs, h.net.circuits⟩, h.streams, h.source, h.routes⟩

/-- Where a handler stands after a step that moves no cell. -/
structure Stands (honest : Bytes → Bool) (ss : List Stream) (j : Nat) (st : Stream) : Prop where
  handler : HandlerOK honest ss j st st.handler
  first : ∀ second, st.role = .source second → FirstHandler second st.handler
  second : honest st.server = true → ∀ p, st.role = .relay p .extendSource →
    Progress st st.handler

theorem Net.control (h : Net honest w) {f : Stream → Stream}
    (hj : w.streams[j]? = some st) (hl : Later st (f st)) (ho : (f st).opened = st.opened)
    (hcommands : (f st).commands = st.commands) (hreplies : (f st).replies = st.replies)
    (hm : ∀ m ∈ (f st).toServer.sent, m ∈ st.toServer.sent ∨ MessageOK (f st) m)
    (ha : ∀ m ∈ (f st).toClient.sent, m ∈ st.toClient.sent ∨
      (honest st.server = true → AnswerOK honest (w.modify j f).streams j (f st) m))
    (hh : (f st).handler = st.handler ∨ Stands honest (w.modify j f).streams j (f st)) :
    Sound honest w (w.modify j f) := by
  have hx : Ext w.streams (w.streams.modify j f) := Ext.modifyAt hj hl
  have hok := h.streams j st hj
  refine h.modify hj ⟨hl, ho, hm, ?_, ha, ?_, ?_⟩ (.of_eq hcommands hreplies)
  · exact hh.imp_right fun hs => hs.handler
  · intro second hr
    rcases hh with hold | hs
    · exact hold ▸ hok.first second hr
    · exact hs.first second (hl.role.trans hr)
  · intro hserver p hr
    have hc := (hok.second hserver p hr).ext hx
    refine ⟨?_, ?_, ?_⟩
    · rw [hcommands, hreplies]
      exact hc.replies
    · rw [hcommands, hreplies]
      exact hc.length
    · rcases hh with hold | hs
      · unfold Progress
        rw [hold, hcommands, hreplies]
        exact hc.handler
      · exact hs.second (hl.server ▸ hserver) p (hl.role.trans hr)

theorem Endpoint.Later.refl (e : Endpoint) : e.Later e := fun _ h => h

theorem Net.dies (h : Net honest w) (hj : w.streams[j]? = some st) {serverEnd : Endpoint} (hs : st.serverEnd.Later serverEnd) :
    Sound honest w (w.modify j fun st => { st with serverEnd, handler := .dead }) :=
  h.control hj ⟨rfl, rfl, rfl, .refl _, hs, fun _ h => h⟩ rfl rfl rfl (fun _ hm => .inl hm)
    (fun _ hm => .inl hm) (.inr ⟨trivial, fun _ _ => trivial, fun _ _ _ => trivial⟩)

theorem Net.abort (h : Net honest w) (j : Nat) : Sound honest w (w.abort j) := by
  unfold World.abort
  cases hj : w.streams[j]? with
  | none => exact .refl h
  | some st =>
    have hs : Sound honest w (w.modify j fun st => { st with handler := .dead }) :=
      h.control hj ⟨rfl, rfl, rfl, .refl _, .refl _, fun _ h => h⟩ rfl rfl rfl (fun _ hm => .inl hm) (fun _ hm => .inl hm)
        (.inr ⟨trivial, fun _ _ => trivial, fun _ _ _ => trivial⟩)
    dsimp only
    split
    · exact hs.withPending _
    · exact hs

/-! ## The first message on a stream -/

theorem Channel.mem_of_next {α : Type} {c : Channel α} {a : α} (h : c.next = some a) :
    a ∈ c.sent := List.mem_of_getElem? h

theorem Channel.mem_push {α : Type} {c : Channel α} {a b : α} :
    b ∈ (c.push a).sent ↔ b ∈ c.sent ∨ b = a := by
  show b ∈ c.sent ++ [a] ↔ _
  rw [List.mem_append, List.mem_singleton]

theorem MessageOK.source {m : Control} {second : Bytes} (h : MessageOK st m)
    (hr : st.role = .source second) : m = .buildSource second := by
  unfold MessageOK at h
  rw [hr] at h
  exact h

theorem MessageOK.relay {m request : Control} {p : Nat} (h : MessageOK st m)
    (hr : st.role = .relay p request) : m = request ∨ m = .entryCommit := by
  unfold MessageOK at h
  rw [hr] at h
  exact h

theorem MessageOK.destination {wire guard : Bytes} (h : MessageOK st (.destination wire guard))
    (hr : st.role = .destination) : st.clientEnd.digest? = some guard := by
  unfold MessageOK at h
  rw [hr] at h
  exact h wire guard rfl

/-- A handler that is past its first message serves neither a source nor the second relay's
stream, where it does not say so. -/
theorem Net.elsewhere (h : Net honest w) (hj : w.streams[j]? = some st)
    (hf : ∀ second, ¬FirstHandler second st.handler) (hp : ¬Progress st st.handler) :
    (∀ second, st.role ≠ .source second) ∧
      (honest st.server = true → ∀ p, st.role ≠ .relay p .extendSource) :=
  ⟨fun second hr => hf second ((h.streams j st hj).first second hr),
    fun hs p hr => hp ((h.streams j st hj).second hs p hr).handler⟩

theorem Net.otherRequest (h : Net honest w) (hj : w.streams[j]? = some st) {m : Control}
    (hm : m ∈ st.toServer.sent) (hb : ∀ second, m ≠ .buildSource second) (he : m ≠ .extendSource)
    (hc : m ≠ .entryCommit) :
    (∀ second, st.role ≠ .source second) ∧
      (honest st.server = true → ∀ p, st.role ≠ .relay p .extendSource) := by
  have hok := (h.streams j st hj).messages m hm
  refine ⟨fun second hr => hb second (hok.source hr), fun _ p hr => ?_⟩
  rcases hok.relay hr with h' | h'
  · exact he h'
  · exact hc h'

theorem Stands.elsewhere {ss : List Stream} (hh : HandlerOK honest ss j st st.handler)
    (hr : (∀ second, st.role ≠ .source second) ∧
      (honest st.server = true → ∀ p, st.role ≠ .relay p .extendSource)) :
    Stands honest ss j st :=
  ⟨hh, fun second he => absurd he (hr.1 second), fun hs p he => absurd he (hr.2 hs p)⟩

theorem StreamOK.at {ss : List Stream} (h : StreamOK honest ss j st) {handler : Handler}
    (hh : st.handler = handler) : HandlerOK honest ss j st handler := hh ▸ h.handler

theorem Net.buildSource (h : Net honest w) (hj : w.streams[j]? = some st)
    (hidle : st.handler = .idle) {second : Bytes} (hm : .buildSource second ∈ st.toServer.sent) :
    Sound honest w (w.buildSource j st second) := by
  have hok := h.streams j st hj
  unfold World.buildSource
  split
  · exact h.abort j
  · refine h.control hj ⟨rfl, rfl, rfl, .refl _, .refl _, fun _ h => h⟩ rfl rfl rfl
      (fun _ hm => .inl hm) (fun _ hm => .inl hm) (.inr ⟨hok.at hidle, ?_, ?_⟩)
    · intro second' hr
      cases (hok.messages _ hm).source hr
      rfl
    · intro _ p hr
      rcases (hok.messages _ hm).relay hr with he | he <;> cases he

theorem Net.extendSource (h : Net honest w) (hj : w.streams[j]? = some st)
    (hidle : st.handler = .idle) (hm : .extendSource ∈ st.toServer.sent) :
    Sound honest w (w.extendSource j st) := by
  have hok := h.streams j st hj
  unfold World.extendSource
  split
  · exact h.abort j
  · refine h.control hj ⟨rfl, rfl, rfl, .refl _, .refl _, fun _ h => h⟩ rfl rfl rfl
      (fun _ hm => .inl hm) ?_ (.inr ⟨hok.at hidle, ?_, ?_⟩)
    · intro m hm
      exact (Channel.mem_push.mp hm).imp_right fun he _ => by rw [he]; trivial
    · intro second hr
      cases (hok.messages _ hm).source hr
    · intro hs p hr
      have hprogress := (hok.second hs p hr).handler
      rw [hidle] at hprogress
      obtain ⟨hreplies, htaken⟩ := hprogress
      refine ⟨?_, ?_, ?_⟩
      · show st.replies.sent.length = st.commands.taken
        rw [hreplies, htaken]
        rfl
      · show st.commands.taken ≤ _
        rw [htaken]
        exact Nat.zero_le _
      · intro i hi
        replace hi : i < st.commands.taken := hi
        rw [htaken] at hi
        exact absurd hi (Nat.not_lt_zero i)

theorem Net.entryActivate (h : Net honest w) (hj : w.streams[j]? = some st)
    {wire first second : Bytes} (hm : .entryActivate wire first second ∈ st.toServer.sent)
    (now : Nat) : Sound honest w (w.entryActivate l j st wire first second now) := by
  have hok := h.streams j st hj
  unfold World.entryActivate
  split
  · exact h.abort j
  · next d hd =>
    obtain rfl := decodeDescriptor_eq hd
    split
    · exact h.abort j
    · split
      · exact h.abort j
      · next entry hentry =>
        split
        · exact h.abort j
        · next hwire =>
          split
          · exact h.abort j
          · next digest serverEnd hdigest =>
            have hlater := Endpoint.later_of_digest hdigest
            split
            · exact h.dies hj hlater
            · next hdiverse =>
              obtain ⟨hsecond, -⟩ := not_or.mp hdiverse
              have hrole := h.otherRequest hj hm (fun _ he => by cases he) (fun he => by cases he)
                fun he => by cases he
              have hl : Later st { st with
                  serverEnd
                  toServer := st.toServer.take
                  toClient := st.toClient.push
                    (.entryActivated entry.guardDiversity entry.entryDiversity)
                  handler := .done } := ⟨rfl, rfl, rfl, .refl _, hlater, fun _ h => h⟩
              refine h.control hj hl rfl rfl rfl (fun _ hm => .inl hm) ?_
                (.inr (.elsewhere trivial hrole))
              intro m hm'
              refine (Channel.mem_push.mp hm').imp_right fun he _ => ?_
              rw [he]
              intro b wire' first' second' hr
              rcases (hok.messages _ hm).relay hr with he | he
              · cases he
                refine ⟨_, getElem?_modify_self hj, ?_, ?_⟩
                · rw [not_not.mp hsecond]
                  exact (Endpoint.digest_spec hdigest).1
                · have hreg := h.circuits entry (List.mem_of_find?_eq_some hentry)
                  have hfound := List.find?_some hentry
                  rw [decide_eq_true_eq] at hfound
                  rw [hfound.1, not_not.mp hwire] at hreg
                  exact hreg.ext (Ext.modifyAt hj hl)
              · cases he

/-- A guard's registration that an entry reads, after it observed the guard as the guard says. -/
theorem StreamOK.registered {ss ss' : List Stream} (h : StreamOK honest ss j st) (hx : Ext ss ss')
    {st' : Stream} (hj' : ss'[j]? = some st') (hl : Later st st') {wire guard entry : Bytes}
    (hm : .entryRegister wire guard entry ∈ st.toServer.sent) (hclient : st.client = guardKey wire)
    (hdigest : st'.serverEnd.digest? = some guard) :
    Registered honest ss' st'.server wire guard entry := by
  refine ⟨j, st', hj', rfl, hl.client.trans hclient, hdigest, fun hg => ?_⟩
  -- the guard runs this code, so that its handler sent the request
  obtain ⟨p, request, hr⟩ := h.client (hclient ▸ hg)
  rcases (h.messages _ hm).relay hr with he | he
  · subst he
    obtain ⟨parent, hp, -, hserver, -, hentry, hdest⟩ := (h.ext hx).parent p _ hr
    exact ⟨p, parent, hp, hl.role.trans hr, hserver, hl.clientEnd _ hentry, hdest⟩
  · cases he

theorem Net.entryRegister (h : Net honest w) (hj : w.streams[j]? = some st)
    (hidle : st.handler = .idle) {wire guard entry : Bytes}
    (hm : .entryRegister wire guard entry ∈ st.toServer.sent) (now : Nat) :
    Sound honest w (w.entryRegister l j st wire guard entry now) := by
  have hok := h.streams j st hj
  unfold World.entryRegister
  split
  · exact h.abort j
  · next d hd =>
    obtain rfl := decodeDescriptor_eq hd
    split
    · exact h.abort j
    · next hchecks =>
      obtain ⟨-, hclient, -⟩ : _ ∧ ¬st.client ≠ guardKey wire ∧ _ := by
        simpa only [not_or] using hchecks
      split
      · exact h.abort j
      · next digest serverEnd hdigest =>
        have hlater := Endpoint.later_of_digest hdigest
        split
        · exact h.dies hj hlater
        · next hnew =>
          obtain ⟨hguard, -⟩ := not_or.mp hnew
          have hrole := h.otherRequest hj hm (fun _ he => by cases he) (fun he => by cases he)
            fun he => by cases he
          have hl : Later st { st with
              serverEnd
              toServer := st.toServer.take
              toClient := st.toClient.push .status
              handler := .registering wire guard entry } :=
            ⟨rfl, rfl, rfl, .refl _, hlater, fun _ h => h⟩
          refine (h.control hj hl rfl rfl rfl (fun _ hm => .inl hm) ?_
            (.inr (.elsewhere ?_ hrole))).withPending _
          · intro m hm
            exact (Channel.mem_push.mp hm).imp_right fun he _ => by rw [he]; trivial
          · refine ⟨hok.at hidle, hok.registered (Ext.modifyAt hj hl) (getElem?_modify_self hj) hl hm
              (not_not.mp hclient) ?_⟩
            rw [not_not.mp hguard]
            exact (Endpoint.digest_spec hdigest).1

theorem Net.withCircuits (h : Net honest w) (circuits : List EntryRecord)
    (hc : ∀ e ∈ circuits,
      Registered honest w.streams e.relay e.wire e.guardDiversity e.entryDiversity) :
    Sound honest w { w with entryCircuits := circuits } :=
  ⟨⟨h.streams, h.pairs, hc⟩, .refl .refl _, rfl, rfl⟩

theorem Net.entryCommit (h : Net honest w) (hj : w.streams[j]? = some st) {wire guard entry : Bytes}
    (hstate : st.handler = .registering wire guard entry) :
    Sound honest w (w.entryCommit j st wire guard entry) := by
  have hok := h.streams j st hj
  have hrole := h.elsewhere hj (by rw [hstate]; exact fun _ => id) (by rw [hstate]; exact id)
  unfold World.entryCommit
  dsimp only
  have hcircuits := h.withCircuits
    (⟨st.server, (fieldsOf wire).routeToken, wire, guard, entry⟩ :: w.entryCircuits.filter fun e =>
      ¬(e.relay = st.server ∧ e.token = (fieldsOf wire).routeToken)) fun e he => by
    rcases List.mem_cons.mp he with rfl | he
    · exact (hok.at hstate).2
    · exact h.circuits e (List.mem_filter.mp he).1
  refine (hcircuits.trans (hcircuits.net.control hj ⟨rfl, rfl, rfl, .refl _, .refl _, fun _ h => h⟩
    rfl rfl rfl (fun _ hm => .inl hm) ?_ (.inr (.elsewhere ?_ hrole)))).withPending _
  · intro m hm
    exact (Channel.mem_push.mp hm).imp_right fun he _ => by rw [he]; trivial
  · trivial

/-! ## The commands of a source -/

theorem Net.notSource (h : Net honest w) (hj : w.streams[j]? = some st)
    (hf : ∀ second, ¬FirstHandler second st.handler) (second : Bytes) :
    st.role ≠ .source second := fun hr => hf second ((h.streams j st hj).first second hr)

theorem Net.resolve (h : Net honest w) (hj : w.streams[j]? = some st)
    (hstate : st.handler = .commands) (hc : st.commands.next = some .resolve) (reply : Bytes) :
    Sound honest w (w.modify j fun st => { st with
      commands := st.commands.take, replies := st.replies.push reply }) := by
  have hok := h.streams j st hj
  have hsource := h.notSource hj (by rw [hstate]; exact fun _ => id)
  refine h.modify hj ⟨⟨rfl, rfl, rfl, .refl _, .refl _, fun _ h => h⟩, rfl, fun _ hm => .inl hm,
    .inl rfl, fun _ hm => .inl hm, fun second hr => absurd hr (hsource second), ?_⟩
    ⟨fun _ => rfl, rfl, List.prefix_append _ _, fun _ second hr => absurd hr (hsource second)⟩
  intro hs p hr
  obtain ⟨hreplies, -, hprogress⟩ := hok.second hs p hr
  rw [hstate] at hprogress
  obtain ⟨htaken, hnone⟩ := hprogress
  have hcurrent : st.commands.sent[st.replies.sent.length]? = some .resolve := by
    rw [htaken]
    exact hc
  have hlength : (st.replies.sent ++ [reply]).length = st.commands.taken + 1 := by
    rw [List.length_append, htaken]
    rfl
  have hnone' : NoActivate st.commands.sent (st.commands.taken + 1) := by
    refine ⟨(List.getElem?_eq_some_iff.mp hc).1, fun i hi wire first second he => ?_⟩
    rcases Nat.lt_succ_iff_lt_or_eq.mp hi with hlt | rfl
    · exact hnone.2 i hlt _ _ _ he
    · cases he.symm.trans hc
  refine ⟨?_, .inr ?_, ?_⟩
  · intro k wire first second reply' hk hreply
    rcases getElem?_concat_iff.mp hreply with hold | ⟨rfl, -⟩
    · exact (hreplies k wire first second reply' hk hold).ext
        (Ext.modifyAt hj ⟨rfl, rfl, rfl, .refl _, .refl _, fun _ h => h⟩)
    · cases hk.1.symm.trans hcurrent
  · show NoActivate st.commands.sent (st.replies.sent ++ [reply]).length
    rw [hlength]
    exact hnone'
  · show Progress _ st.handler
    rw [hstate]
    exact ⟨hlength, hnone'⟩

theorem Net.activate (h : Net honest w) (hj : w.streams[j]? = some st)
    (hstate : st.handler = .commands) {wire first second : Bytes}
    (hc : st.commands.next = some (.activate wire first second)) {serverEnd : Endpoint}
    (hlater : st.serverEnd.Later serverEnd) (hdigest : serverEnd.digest? = some first) :
    Sound honest w (w.modify j fun st => { st with
      serverEnd, commands := st.commands.take, handler := .dialEntry wire first second }) := by
  have hok := h.streams j st hj
  have hsource := h.notSource hj (by rw [hstate]; exact fun _ => id)
  refine h.modify hj ⟨⟨rfl, rfl, rfl, .refl _, hlater, fun _ h => h⟩, rfl, fun _ hm => .inl hm,
    .inr ⟨hok.at hstate, hdigest⟩, fun _ hm => .inl hm,
    fun second hr => absurd hr (hsource second), ?_⟩
    ⟨fun _ => rfl, rfl, List.prefix_rfl, fun _ second hr => absurd hr (hsource second)⟩
  intro hs p hr
  obtain ⟨hreplies, hlength, hprogress⟩ := hok.second hs p hr
  rw [hstate] at hprogress
  obtain ⟨htaken, hnone⟩ := hprogress
  refine ⟨?_, hlength, ?_, ?_⟩
  · intro k wire first second reply hk hreply
    exact (hreplies k wire first second reply hk hreply).ext
      (Ext.modifyAt hj ⟨rfl, rfl, rfl, .refl _, hlater, fun _ h => h⟩)
  · show st.commands.sent[st.replies.sent.length]? = _
    rw [htaken]
    exact hc
  · show ∀ i < st.replies.sent.length, _
    rw [htaken]
    exact hnone.2

theorem Net.command (h : Net honest w) (hj : w.streams[j]? = some st)
    (hstate : st.handler = .commands) {c : Command} (hc : st.commands.next = some c) (now : Nat)
    (reply : Bytes) : Sound honest w (w.command l j st c now reply) := by
  unfold World.command
  cases c with
  | other => exact h.abort j
  | resolve => exact h.resolve hj hstate hc reply
  | activate wire first second =>
    dsimp only
    split
    · exact h.abort j
    · split
      · exact h.abort j
      · split
        · exact h.abort j
        · next digest serverEnd hdigest =>
          have hlater := Endpoint.later_of_digest hdigest
          split
          · exact h.dies hj hlater
          · next hfirst =>
            exact h.activate hj hstate hc hlater
              (not_not.mp hfirst ▸ (Endpoint.digest_spec hdigest).1)

/-! ## The answers of the next relay -/

theorem Net.reads (h : Net honest w) {n : Nat} {next : Stream} (hn : w.streams[n]? = some next)
    {clientEnd : Endpoint} (hlater : next.clientEnd.Later clientEnd) :
    Sound honest w (w.modify n fun st => { st with toClient := st.toClient.take, clientEnd }) :=
  h.control hn ⟨rfl, rfl, rfl, hlater, .refl _, fun _ h => h⟩ rfl rfl rfl (fun _ hm => .inl hm)
    (fun _ hm => .inl hm) (.inl rfl)

theorem requireDiverse_length {values : List Bytes} (h : requireDiverse values = true)
    {value : Bytes} (hv : value ∈ values) : value.length = 32 := by
  unfold requireDiverse at h
  rw [Bool.and_eq_true, List.all_eq_true] at h
  exact of_decide_eq_true (h.1 value hv)

/-- The second relay answers the source, once it observed the entry as the answer says. -/
theorem Net.activated (h : Net honest w) (hj : w.streams[j]? = some st) {n : Nat}
    (hopened : st.opened = some n) {next : Stream} (hn : w.streams[n]? = some next)
    {wire first second guard entry : Bytes} (hstate : st.handler = .awaitActivation wire first second)
    (hm : .entryActivated guard entry ∈ next.toClient.sent)
    (hentry : next.clientEnd.digest? = some entry)
    (hdiverse : requireDiverse [first, second, guard, entry] = true) :
    Sound honest w (w.modify j fun st => { st with
      replies := st.replies.push (statusOk :: (guard ++ entry)), handler := .bridge }) := by
  have hok := h.streams j st hj
  have hsource := h.notSource hj (by rw [hstate]; exact fun _ => id)
  obtain ⟨hdigest, n', next', hopened', hn', hrole⟩ := hok.at hstate
  obtain rfl : n = n' := Option.some.inj (hopened.symm.trans hopened')
  obtain rfl : next = next' := Option.some.inj (hn.symm.trans hn')
  have hl : Later st { st with
      replies := st.replies.push (statusOk :: (guard ++ entry)), handler := .bridge } :=
    ⟨rfl, rfl, rfl, .refl _, .refl _, fun _ h => h⟩
  refine h.modify hj ⟨hl, rfl, fun _ hm => .inl hm, .inr trivial, fun _ hm => .inl hm,
    fun second hr => absurd hr (hsource second), ?_⟩
    ⟨fun _ => rfl, rfl, List.prefix_append _ _, fun _ second hr => absurd hr (hsource second)⟩
  intro hs p hr
  obtain ⟨hreplies, -, hprogress⟩ := hok.second hs p hr
  rw [hstate] at hprogress
  have hlen : st.replies.sent.length <
      (st.replies.sent ++ [statusOk :: (guard ++ entry)]).length := by
    rw [List.length_append]
    exact Nat.lt_succ_self _
  have hnext := h.streams n next hn
  have hanswer : Activates honest w.streams j wire first second (statusOk :: (guard ++ entry)) := by
    refine ⟨st, guard, entry, hj, hdigest, rfl, requireDiverse_length hdiverse (by simp),
      requireDiverse_length hdiverse (by simp), n, next, hn, hrole, ?_, hentry, fun he => ?_⟩
    · obtain ⟨parent, -, -, hrequest⟩ := hnext.parent j _ hrole
      exact hrequest
    · obtain ⟨parent, -, -, hrequest⟩ := hnext.parent j _ hrole
      rw [← (hrequest : next.server = entryKey wire)] at he
      exact hnext.answers he _ hm j wire first second hrole
  refine ⟨?_, .inl ⟨_, wire, first, second, hprogress, hlen⟩, _, wire, first, second, hprogress,
    hlen⟩
  intro k wire' first' second' reply hk hreply
  rcases getElem?_concat_iff.mp hreply with hold | ⟨rfl, rfl⟩
  · exact (hreplies k wire' first' second' reply hk hold).ext (Ext.modifyAt hj hl)
  · cases hk.1.symm.trans hprogress.1
    exact hanswer.ext (Ext.modifyAt hj hl)

theorem Net.activation (h : Net honest w) (hj : w.streams[j]? = some st) {n : Nat}
    (hopened : st.opened = some n) {next : Stream} (hn : w.streams[n]? = some next)
    {wire first second guard entry : Bytes} (hstate : st.handler = .awaitActivation wire first second)
    (hm : .entryActivated guard entry ∈ next.toClient.sent) :
    Sound honest w (w.activation l j n next first second guard entry) := by
  have hne : n ≠ j := Nat.ne_of_gt ((h.streams j st hj).opened n hopened).1
  unfold World.activation
  split
  · exact h.abort j
  · next digest clientEnd hobserved =>
    have hreads := h.reads hn (Endpoint.later_of_digest hobserved)
    dsimp only
    split
    · exact hreads.trans (hreads.net.abort j)
    · next hdiverse =>
      obtain ⟨hentry, hdiverse⟩ := not_or.mp hdiverse
      rw [Bool.not_eq_true, Bool.not_eq_false'] at hdiverse
      refine hreads.trans (hreads.net.activated ((getElem?_modify_other hne).trans hj) hopened
        (getElem?_modify_self hn) hstate hm ?_ hdiverse)
      rw [not_not.mp hentry]
      exact (Endpoint.digest_spec hobserved).1

theorem Net.extended (h : Net honest w) (hj : w.streams[j]? = some st) {n : Nat}
    (hopened : st.opened = some n) {next : Stream} (hn : w.streams[n]? = some next) (hstate : st.handler = .awaitExtend) :
    Sound honest w (w.extended l j n next) := by
  have hok := h.streams j st hj
  have hne : n ≠ j := Nat.ne_of_gt (hok.opened n hopened).1
  obtain ⟨n', next', hopened', hn', hrole⟩ := hok.at hstate
  obtain rfl : n = n' := Option.some.inj (hopened.symm.trans hopened')
  obtain rfl : next = next' := Option.some.inj (hn.symm.trans hn')
  unfold World.extended
  split
  · exact h.abort j
  · next digest clientEnd hobserved =>
    have hreads := h.reads hn (Endpoint.later_of_digest hobserved)
    refine hreads.trans (hreads.net.control ((getElem?_modify_other hne).trans hj)
      ⟨rfl, rfl, rfl, .refl _, .refl _, fun _ h => h⟩ rfl rfl rfl (fun _ hm => .inl hm) ?_
      (.inr ⟨?_, fun _ _ => ?_, fun hs p hr => ?_⟩))
    · intro m hm
      refine (Channel.mem_push.mp hm).imp_right fun he _ => ?_
      rw [he]
      have hn' := (getElem?_modify_other (f := fun st => { st with
        toClient := st.toClient.push (.built digest), handler := .bridge }) hne.symm).trans
        (getElem?_modify_self (f := fun st => { st with
          toClient := st.toClient.take, clientEnd }) hn)
      exact ⟨_, _, n, getElem?_modify_self ((getElem?_modify_other hne).trans hj), hopened, hn',
        hrole, (Endpoint.digest_spec hobserved).1⟩
    · trivial
    · trivial
    · have hprogress := (hok.second hs p hr).handler
      rw [hstate] at hprogress
      exact hprogress.elim

/-! ## Requests, identities and descriptors -/

theorem Net.request (h : Net honest w) (hj : w.streams[j]? = some st)
    (hidle : st.handler = .idle) {m : Control}
    (hm : m ∈ st.toServer.sent) (now : Nat) (data : Bytes) :
    Sound honest w (w.request l j st m now data) := by
  unfold World.request
  split
  · exact h.buildSource hj hidle hm
  · exact h.extendSource hj hidle hm
  · exact h.entryActivate hj hm now
  · exact h.entryRegister hj hidle hm now
  · have hrole := h.otherRequest hj hm (fun _ he => by cases he) (fun he => by cases he)
      fun he => by cases he
    refine h.control hj ⟨rfl, rfl, rfl, .refl _, .refl _, fun _ h => h⟩ rfl rfl rfl
      (fun _ hm => .inl hm) ?_ (.inr (.elsewhere ?_ hrole))
    · intro m hm
      exact (Channel.mem_push.mp hm).imp_right fun he _ => by rw [he]; trivial
    · exact (h.streams j st hj).at hidle
  · exact h.abort j

theorem Net.identity (h : Net honest w) (hj : w.streams[j]? = some st) {challenge : Bytes} (hstate : st.handler = .challenged challenge)
    (m : Control) (now : Nat) (data : Bytes) :
    Sound honest w (w.identity l j st challenge m now data) := by
  have hrole := h.elsewhere hj (by rw [hstate]; exact fun _ => id) (by rw [hstate]; exact id)
  unfold World.identity
  split
  · split
    · refine h.control hj ⟨rfl, rfl, rfl, .refl _, .refl _, fun _ h => h⟩ rfl rfl rfl
        (fun _ hm => .inl hm) ?_ (.inr (.elsewhere ?_ hrole))
      · intro m hm
        exact (Channel.mem_push.mp hm).imp_right fun he _ => by rw [he]; trivial
      · exact (h.streams j st hj).at hstate
    · exact h.abort j
  · exact h.abort j

theorem Net.destination (h : Net honest w) (hj : w.streams[j]? = some st) {period : Nat} {blinded : Bytes}
    (hstate : st.handler = .identified period blinded) {m : Control} (hm : m ∈ st.toServer.sent)
    (now : Nat) : Sound honest w (w.destination l j st period blinded m now) := by
  have hrole := h.elsewhere hj (by rw [hstate]; exact fun _ => id) (by rw [hstate]; exact id)
  unfold World.destination
  split
  · next wire guard =>
    split
    · exact h.abort j
    · next d hd =>
      obtain rfl := decodeDescriptor_eq hd
      split
      · exact h.abort j
      · next hguard =>
        obtain ⟨-, hguard⟩ := not_or.mp hguard
        refine h.control hj ⟨rfl, rfl, rfl, .refl _, .refl _, fun _ h => h⟩ rfl rfl rfl
          (fun _ hm => .inl hm) (fun _ hm => .inl hm) (.inr (.elsewhere ?_ hrole))
        exact ⟨(h.streams j st hj).at hstate, (not_not.mp hguard).symm,
          ((h.streams j st hj).messages _ hm).destination⟩
  · exact h.abort j

theorem Net.serve (h : Net honest w) (j now : Nat) (data : Bytes) :
    Sound honest w (w.serve l j now data) := by
  unfold World.serve
  cases hj : w.streams[j]? with
  | none => exact .refl h
  | some st =>
    dsimp only
    split
    · next hstate =>
      split
      · exact .refl h
      · next c hc => exact h.command hj hstate hc now data
    · split
      · exact .refl h
      · next m hm =>
        have hm := Channel.mem_of_next hm
        split
        · next hstate => exact h.request hj hstate hm now data
        · next hstate =>
          split
          · exact h.entryCommit hj hstate
          · exact h.abort j
        · next hstate => exact h.identity hj hstate m now data
        · next hstate => exact h.destination hj hstate hm now
        · exact .refl h

/-! ## Answers -/

theorem Net.answer (h : Net honest w) (hj : w.streams[j]? = some st) {n : Nat}
    (hopened : st.opened = some n) {next : Stream} (hn : w.streams[n]? = some next) {m : Control}
    (hm : m ∈ next.toClient.sent) : Sound honest w (w.answer l j n st next m) := by
  have hne : n ≠ j := Nat.ne_of_gt ((h.streams j st hj).opened n hopened).1
  have hreads : Sound honest w (w.modify n fun st => { st with toClient := st.toClient.take }) :=
    h.control hn ⟨rfl, rfl, rfl, .refl _, .refl _, fun _ h => h⟩ rfl rfl rfl (fun _ hm => .inl hm)
      (fun _ hm => .inl hm) (.inl rfl)
  have hj' := (getElem?_modify_other (f := fun st => { st with toClient := st.toClient.take })
    hne).trans hj
  unfold World.answer
  split
  · next hstate =>
    split
    · exact h.extended hj hopened hn hstate
    · exact h.abort j
  · next hstate =>
    split
    · exact h.activation hj hopened hn hstate hm
    · exact h.abort j
  · next hstate =>
    split
    · have hrole := hreads.net.elsewhere hj' (by rw [hstate]; exact fun _ => id)
        (by rw [hstate]; exact id)
      refine hreads.trans (hreads.net.control hj' ⟨rfl, rfl, rfl, .refl _, .refl _, fun _ h => h⟩
        rfl rfl rfl (fun _ hm => .inl hm) (fun _ hm => .inl hm) (.inr (.elsewhere ?_ hrole)))
      trivial
    · exact h.abort j
  · next hstate =>
    split
    · have hrole := hreads.net.elsewhere hj' (by rw [hstate]; exact fun _ => id)
        (by rw [hstate]; exact id)
      refine hreads.trans (hreads.net.control hj' ⟨rfl, rfl, rfl, .refl _, .refl _, fun _ h => h⟩
        rfl rfl rfl (fun _ hm => .inl hm) ?_ (.inr (.elsewhere ?_ hrole)))
      · intro m hm
        exact (Channel.mem_push.mp hm).imp_right fun he _ => by rw [he]; trivial
      · trivial
    · exact h.abort j
  · exact .refl h

theorem Net.serveAnswer (h : Net honest w) (j : Nat) : Sound honest w (w.serveAnswer l j) := by
  unfold World.serveAnswer
  split
  · exact .refl h
  · next st hj =>
    split
    · exact .refl h
    · next n hopened =>
      split
      · exact .refl h
      · next next hn =>
        split
        · exact .refl h
        · next m hm => exact h.answer hj hopened hn (Channel.mem_of_next hm)

theorem Net.published (h : Net honest w) (j : Nat) : Sound honest w (w.published j) := by
  unfold World.published
  split
  · exact .refl h
  · next st hj =>
    split
    · next entry n hstate hopened =>
      obtain ⟨hlt, next, request, hn, hrole⟩ := (h.streams j st hj).opened n hopened
      have hsends : Sound honest w
          (w.modify n fun st => { st with toServer := st.toServer.push .entryCommit }) := by
        refine h.control hn ⟨rfl, rfl, rfl, .refl _, .refl _, fun _ h => h⟩ rfl rfl rfl ?_
          (fun _ hm => .inl hm) (.inl rfl)
        intro m hm
        refine (Channel.mem_push.mp hm).imp_right fun he => ?_
        unfold MessageOK
        dsimp only
        rw [hrole]
        exact .inr he
      have hj' := (getElem?_modify_other (f := fun st => { st with
        toServer := st.toServer.push .entryCommit }) (Nat.ne_of_gt hlt)).trans hj
      have hrole := hsends.net.elsewhere hj' (by rw [hstate]; exact fun _ => id)
        (by rw [hstate]; exact id)
      refine hsends.trans (hsends.net.control hj' ⟨rfl, rfl, rfl, .refl _, .refl _, fun _ h => h⟩
        rfl rfl rfl (fun _ hm => .inl hm) (fun _ hm => .inl hm) (.inr (.elsewhere ?_ hrole)))
      trivial
    · exact .refl h

/-! ## New streams -/

theorem StreamOK.newStream {ss : List Stream} {role : Role} {client server : Bytes}
    {clientEnd serverEnd : Endpoint} {request : List Control}
    (hclient : honest client = true → ∃ p request, role = .relay p request)
    (hparent : ∀ p m, role = .relay p m → ∃ parent, ss[p]? = some parent ∧
      client = parent.server ∧
        RequestOK parent (World.newStream role client server clientEnd serverEnd request) m)
    (hm : ∀ m ∈ request,
      MessageOK (World.newStream role client server clientEnd serverEnd request) m) :
    StreamOK honest ss j (World.newStream role client server clientEnd serverEnd request) where
  client := hclient
  parent := hparent
  opened := fun _ hn => by cases hn
  messages := hm
  handler := rfl
  answers := fun _ _ hm => by cases hm
  first := fun _ _ => trivial
  second := fun _ _ _ =>
    ⟨fun _ _ _ _ _ _ hr => (by cases hr),
      .inr ⟨Nat.zero_le _, fun _ hi => absurd hi (Nat.not_lt_zero _)⟩, rfl, rfl⟩

theorem StreamsOK.append {ss : List Stream} (h : StreamsOK honest ss) {st : Stream}
    (hst : StreamOK honest (ss ++ [st]) ss.length st) : StreamsOK honest (ss ++ [st]) := by
  intro i a ha
  rcases getElem?_concat_iff.mp ha with hold | ⟨rfl, rfl⟩
  · exact (h i a hold).ext (Ext.append ss [st])
  · exact hst

theorem Pairs.append {ss : List Stream} (h : Pairs honest ss) {st : Stream}
    (ho : st.opened = none) (hreplies : st.replies.sent = []) (htaken : st.commands.taken = 0) :
    Pairs honest (ss ++ [st]) := by
  intro i a second hi ha hr
  rcases getElem?_concat_iff.mp hi with hold | ⟨rfl, rfl⟩
  · obtain ⟨hclosed, hpaired⟩ := h i a second hold ha hr
    refine ⟨hclosed, fun n hn => ?_⟩
    obtain ⟨next, hnext, hp⟩ := hpaired n hn
    exact ⟨next, getElem?_concat_iff.mpr (.inl hnext), hp⟩
  · exact ⟨fun _ => ⟨hreplies, htaken⟩, fun n hn => by rw [ho] at hn; cases hn⟩

theorem Net.append (h : Net honest w) (role : Role) {client : Bytes} (server : Bytes)
    (clientEnd serverEnd : Endpoint) (request : List Control) (hclient : honest client = false)
    (hrole : ∀ p m, role ≠ .relay p m)
    (hm : ∀ m ∈ request,
      MessageOK (World.newStream role client server clientEnd serverEnd request) m) :
    Sound honest w { w with
      streams := w.streams ++ [World.newStream role client server clientEnd serverEnd request] } := by
  refine ⟨⟨h.streams.append (.newStream (fun hc => ?_) (fun p m hr => absurd hr (hrole p m)) hm),
    h.pairs.append rfl rfl rfl, fun e he => (h.circuits e he).ext (Ext.append _ _)⟩,
    Extends.append Silent.refl _ _, rfl, rfl⟩
  rw [hclient] at hc
  cases hc

theorem Net.opens (h : Net honest w) (hj : w.streams[j]? = some st) (ho : st.opened = none)
    {f : Stream → Stream} (hl : Later st (f st)) (hopened : (f st).opened = some w.streams.length)
    (hserver : (f st).toServer = st.toServer) (hclient : (f st).toClient = st.toClient)
    (hcommands : (f st).commands = st.commands) (hreplies : (f st).replies = st.replies)
    {server : Bytes} {clientEnd serverEnd : Endpoint} {request : Control} {new : Stream}
    (hnew : new =
      World.newStream (.relay j request) st.server server clientEnd serverEnd [request])
    (hrequest : RequestOK st new request)
    (hh : Stands honest (w.streams.modify j f ++ [new]) j (f st)) :
    Sound honest w { w with streams := w.streams.modify j f ++ [new] } := by
  have hok := h.streams j st hj
  have hx := (Ext.modifyAt hj hl).trans (Ext.append _ [new])
  have hself : (w.streams.modify j f ++ [new])[j]? = some (f st) :=
    getElem?_concat_iff.mpr (.inl (getElem?_modify_self hj))
  have hlast : (w.streams.modify j f ++ [new])[w.streams.length]? = some new :=
    getElem?_concat_iff.mpr (.inr ⟨(List.length_modify ..).symm, rfl⟩)
  refine ⟨⟨?_, ?_, fun e he => (h.circuits e he).ext hx⟩, ?_, rfl, rfl⟩
  · intro i a ha
    rcases getElem?_concat_iff.mp ha with hold | ⟨rfl, rfl⟩
    · rcases getElem?_modify_cases hj hold with ⟨rfl, rfl⟩ | ⟨-, hi⟩
      · exact {
          client := by
            rw [hl.client, hl.role]
            exact hok.client
          parent := by
            intro p m hr
            obtain ⟨parent, hp, hc, hm⟩ := (hok.ext hx).parent p m (hl.role ▸ hr)
            exact ⟨parent, hp, hl.client.trans hc, hm.later (.refl parent) hl⟩
          opened := by
            intro n hn
            obtain rfl := Option.some.inj (hopened.symm.trans hn)
            exact ⟨(List.getElem?_eq_some_iff.mp hj).1, new, request, hlast, by rw [hnew]; rfl⟩
          messages := by
            rw [hserver]
            exact fun m hm => (hok.messages m hm).later hl
          handler := hh.handler
          answers := by
            rw [hl.server, hclient]
            exact fun hs m hm => (hok.answers hs m hm).later hx hl
          first := fun second hr => hh.first second hr
          second := by
            intro hs p hr
            have hc := (hok.second (hl.server ▸ hs) p (hl.role ▸ hr)).ext hx
            refine ⟨?_, ?_, hh.second hs p hr⟩
            · rw [hcommands, hreplies]
              exact hc.replies
            · rw [hcommands, hreplies]
              exact hc.length }
      · exact (h.streams i a hi).ext hx
    · subst hnew
      refine .newStream (fun _ => ⟨j, request, rfl⟩) (fun p m hr => ?_) fun m hm => ?_
      · cases hr
        exact ⟨_, hself, hl.server.symm, hrequest.later hl (.refl _)⟩
      · exact .inl (List.mem_singleton.mp hm)
  · intro i a second hi ha hr
    rcases getElem?_concat_iff.mp hi with hold | ⟨rfl, rfl⟩
    · rcases getElem?_modify_cases hj hold with ⟨rfl, rfl⟩ | ⟨hne, hi⟩
      · obtain ⟨hsent, htaken⟩ := (h.pairs i st second hj (hl.server ▸ ha) (hl.role ▸ hr)).closed ho
        refine ⟨fun hn => (by rw [hopened] at hn; cases hn), fun n hn => ?_⟩
        obtain rfl := Option.some.inj (hopened.symm.trans hn)
        refine ⟨new, hlast, ?_, ?_, ?_, ?_⟩
        · rw [hcommands, htaken, hnew]
          rfl
        · rw [hreplies, hsent, hnew]
          rfl
        · rw [hcommands, htaken]
          exact Nat.zero_le _
        · rw [hnew]
          exact Nat.zero_le _
      · obtain ⟨hclosed, hpaired⟩ := h.pairs i a second hi ha hr
        refine ⟨hclosed, fun n hn => ?_⟩
        obtain ⟨next, hnext, hp⟩ := hpaired n hn
        by_cases he : j = n
        · subst he
          rw [hj] at hnext
          cases hnext
          exact ⟨f st, hself, by rw [hcommands]; exact hp.commands,
            by rw [hreplies]; exact hp.replies, hp.asked, by rw [hreplies]; exact hp.given⟩
        · exact ⟨next, getElem?_concat_iff.mpr (.inl ((getElem?_modify_other he).trans hnext)), hp⟩
    · rw [hnew] at hr
      cases hr
  · refine Extends.trans Silent.trans (Extends.modify Silent.refl fun a ha => ?_)
      (Extends.append Silent.refl _ _)
    rw [hj] at ha
    cases ha
    exact ⟨hl, fun _ _ => ⟨by rw [hcommands], by rw [hreplies]⟩⟩

theorem opened_concat {ss : List Stream} {new : Stream} {request : Control} {n : Nat}
    (hn : n = ss.length) (ho : st.opened = some n) (hr : new.role = .relay j request) :
    Opened (ss ++ [new]) j st request :=
  ⟨n, new, ho, getElem?_concat_iff.mpr (.inr ⟨hn, rfl⟩), hr⟩

theorem Later.opens (ho : st.opened = none) (handler : Handler) (n : Nat) :
    Later st { st with handler, opened := some n } :=
  ⟨rfl, rfl, rfl, .refl _, .refl _, fun i hi => by rw [ho] at hi; cases hi⟩

theorem Net.dialed (h : Net honest w) (j : Nat) (near far : Endpoint) :
    Sound honest w (w.dialed l j near far) := by
  unfold World.dialed
  split
  · exact .refl h
  · next st hj =>
    have hok := h.streams j st hj
    split
    · exact h.abort j
    · next digest clientEnd hobserved =>
      have hdigest := (Endpoint.digest_spec hobserved).1
      dsimp only
      have hlen (f : Stream → Stream) : w.streams.length = (w.streams.modify j f).length :=
        (List.length_modify ..).symm
      split
      · next second hstate =>
        have ho := hok.at hstate
        refine h.opens hj ho (.opens ho _ _) rfl rfl rfl rfl rfl rfl ?_ ⟨?_, ?_, ?_⟩
        · intro second' hr
          have hfirst := hok.first second' hr
          rw [hstate] at hfirst
          exact hfirst
        · exact opened_concat (hlen _) rfl rfl
        · exact fun _ _ => trivial
        · intro hs p hr
          have hprogress := (hok.second hs p hr).handler
          rw [hstate] at hprogress
          exact hprogress
      · next wire first second hstate =>
        obtain ⟨ho, hfirst⟩ := hok.at hstate
        refine h.opens hj ho (.opens ho _ _) rfl rfl rfl rfl rfl rfl ?_ ⟨?_, ?_, ?_⟩
        · rfl
        · exact ⟨hfirst, opened_concat (hlen _) rfl rfl⟩
        · intro second' hr
          have hfirst := hok.first second' hr
          rw [hstate] at hfirst
          exact hfirst
        · intro hs p hr
          have hprogress := (hok.second hs p hr).handler
          rw [hstate] at hprogress
          exact hprogress
      · next wire guard hstate =>
        obtain ⟨ho, hguard, hdest⟩ := hok.at hstate
        have hrole := h.elsewhere hj (by rw [hstate]; exact fun _ => id) (by rw [hstate]; exact id)
        split
        · exact h.abort j
        · refine h.opens hj ho (.opens ho _ _) rfl rfl rfl rfl rfl rfl ?_ (.elsewhere ?_ hrole)
          · exact ⟨hguard, rfl, hdigest, hdest⟩
          · trivial
      · exact .refl h

/-! ## Cells -/

theorem Progress.push {handler : Handler} (h : Progress st handler) (c : Command) :
    Progress { st with commands := st.commands.push c } handler := by
  cases handler with
  | idle => exact h
  | commands => exact ⟨h.1, h.2.push c⟩
  | dialEntry wire first second => exact FirstActivate.push h c
  | awaitActivation wire first second => exact FirstActivate.push h c
  | bridge =>
    obtain ⟨k, wire, first, second, hk, hlt⟩ := h
    exact ⟨k, wire, first, second, hk.push c, hlt⟩
  | dead => trivial
  | _ => exact h

/-- Commands that a second relay has not read leave its answers true. -/
theorem CommandsOK.push {ss : List Stream} (h : CommandsOK honest ss j st) (c : Command) :
    CommandsOK honest ss j { st with commands := st.commands.push c } := by
  obtain ⟨hreplies, hlength, hprogress⟩ := h
  refine ⟨?_, ?_, ?_⟩
  · intro k wire first second reply hk hreply
    rcases FirstActivate.of_push hk with hold | ⟨rfl, hnone⟩
    · exact hreplies k wire first second reply hold hreply
    · -- the command is new, and there are no answers past the old ones
      rcases hlength with ⟨k', wire', first', second', hk', -⟩ | hnone'
      · exact absurd hk'.1
          (hnone.2 k' (List.getElem?_eq_some_iff.mp hk'.1).1 wire' first' second')
      · have hlt : st.commands.sent.length < st.replies.sent.length :=
          (List.getElem?_eq_some_iff.mp hreply).1
        exact absurd hnone'.1 (Nat.not_le_of_lt hlt)
  · rcases hlength with ⟨k, wire, first, second, hk, hlt⟩ | hnone
    · exact .inl ⟨k, wire, first, second, hk.push c, hlt⟩
    · exact .inr (hnone.push c)
  · exact hprogress.push c

/-- A further answer of a second relay that is past its `SOURCE_ACTIVATE`. -/
theorem CommandsOK.pushReply {ss : List Stream} (h : CommandsOK honest ss j st)
    (hbridge : st.handler = .bridge) (reply : Bytes) :
    CommandsOK honest ss j { st with replies := st.replies.push reply } := by
  obtain ⟨hreplies, -, hprogress⟩ := h
  rw [hbridge] at hprogress
  obtain ⟨k, wire, first, second, hk, hlt⟩ := hprogress
  have hlt' : k < (st.replies.sent ++ [reply]).length := by
    rw [List.length_append]
    exact Nat.lt_add_right 1 hlt
  refine ⟨?_, .inl ⟨k, wire, first, second, hk, hlt'⟩, ?_⟩
  · intro k' wire' first' second' reply' hk' hreply
    obtain rfl := FirstActivate.unique hk hk'
    exact hreplies k wire' first' second' reply' hk' (getElem?_concat_of_lt hlt ▸ hreply)
  · show Progress _ st.handler
    rw [hbridge]
    exact ⟨k, wire, first, second, hk, hlt'⟩

/-- A cell that a handler hands on keeps the cells of every source paired. -/
theorem Pairs.forward {ss : List Stream} (h : Pairs honest ss) (hs : StreamsOK honest ss)
    (hj : ss[j]? = some st) {n : Nat} (hopened : st.opened = some n) {next : Stream}
    (hn : ss[n]? = some next) {f g : Stream → Stream} (hf : Later st (f st))
    (hfo : (f st).opened = st.opened) (hg : (g next).role = next.role)
    (hasked : (f st).commands.sent = st.commands.sent)
    (htaken : (f st).replies.taken = st.replies.taken)
    (hreplies : st.replies.sent <+: (f st).replies.sent)
    (hp : Paired st next → Paired (f st) (g next)) :
    Pairs honest ((ss.modify n g).modify j f) := by
  obtain ⟨hlt, next', request, hn', hrole⟩ := (hs j st hj).opened n hopened
  rw [hn] at hn'
  cases hn'
  have hne : n ≠ j := Nat.ne_of_gt hlt
  have hj' : (ss.modify n g)[j]? = some st := (getElem?_modify_other hne).trans hj
  have hn' : ((ss.modify n g).modify j f)[n]? = some (g next) :=
    (getElem?_modify_other hne.symm).trans (getElem?_modify_self hn)
  intro i a second hi ha hr
  rcases getElem?_modify_cases hj' hi with ⟨rfl, rfl⟩ | ⟨hij, hi⟩
  · rw [hf.server] at ha
    rw [hf.role] at hr
    obtain ⟨-, hpaired⟩ := h i st second hj ha hr
    refine ⟨fun he => ?_, fun m hm => ?_⟩
    · rw [hfo, hopened] at he
      cases he
    · obtain rfl : n = m := Option.some.inj (hopened.symm.trans (hfo.symm.trans hm))
      obtain ⟨next', hnext, hpair⟩ := hpaired n hopened
      rw [hn] at hnext
      cases hnext
      exact ⟨g next, hn', hp hpair⟩
  · rcases getElem?_modify_cases hn hi with ⟨rfl, rfl⟩ | ⟨hin, hi⟩
    · rw [hg, hrole] at hr
      cases hr
    · obtain ⟨hclosed, hpaired⟩ := h i a second hi ha hr
      refine ⟨hclosed, fun m hm => ?_⟩
      obtain ⟨next', hnext, hpair⟩ := hpaired m hm
      by_cases hmj : j = m
      · subst hmj
        rw [hj] at hnext
        cases hnext
        refine ⟨f st, getElem?_modify_self hj', hasked.trans hpair.commands, ?_, hpair.asked, ?_⟩
        · obtain ⟨more, hmore⟩ := hreplies
          rw [htaken, ← hmore, List.take_append_of_le_length hpair.given]
          exact hpair.replies
        · rw [htaken]
          exact Nat.le_trans hpair.given hreplies.length_le
      · by_cases hmn : n = m
        · -- the stream `n` has one parent
          subst hmn
          obtain ⟨-, next'', request', hn'', hrole'⟩ := (hs i a hi).opened n hm
          rw [hn] at hn''
          cases hn''
          rw [hrole] at hrole'
          exact absurd (by injection hrole' with he; exact he.symm) hij
        · exact ⟨next', (getElem?_modify_other hmj).trans ((getElem?_modify_other hmn).trans hnext),
            hpair⟩

theorem Channel.take_push {α : Type} {c : Channel α} {a : α} (h : c.next = some a) :
    c.sent.take (c.taken + 1) = c.sent.take c.taken ++ [a] := by
  rw [List.take_add_one, show c.sent[c.taken]? = some a from h]
  rfl

theorem Channel.taken_lt {α : Type} {c : Channel α} {a : α} (h : c.next = some a) :
    c.taken + 1 ≤ c.sent.length := (List.getElem?_eq_some_iff.mp h).1

theorem StreamOK.cells {ss ss' : List Stream} (h : StreamOK honest ss j st) (hx : Ext ss ss')
    (commands : Channel Command) (replies : Channel Bytes)
    (hc : CommandsOK honest ss j st → CommandsOK honest ss j { st with commands, replies }) :
    Update honest ss' j st { st with commands, replies } :=
  ⟨⟨rfl, rfl, rfl, .refl _, .refl _, fun _ h => h⟩, rfl, fun _ hm => .inl hm, .inl rfl,
    fun _ hm => .inl hm, h.first, fun hs p hr => (hc (h.second hs p hr)).ext hx⟩

theorem Later.cells (st : Stream) (commands : Channel Command) (replies : Channel Bytes) :
    Later st { st with commands, replies } := ⟨rfl, rfl, rfl, .refl _, .refl _, fun _ h => h⟩

/-- Cells are handed on between the stream that a handler serves and the one that it opened. -/
theorem Net.hands (h : Net honest w) (hj : w.streams[j]? = some st) {n : Nat}
    (hopened : st.opened = some n) {next : Stream} (hn : w.streams[n]? = some next)
    {cf cg : Stream → Channel Command} {rf rg : Stream → Channel Bytes}
    (hasked : (cf st).sent = st.commands.sent) (htaken : (rf st).taken = st.replies.taken)
    (hreplies : st.replies.sent <+: (rf st).sent)
    (hf : ∀ ss, CommandsOK honest ss j st →
      CommandsOK honest ss j { st with commands := cf st, replies := rf st })
    (hg : ∀ ss, CommandsOK honest ss n next →
      CommandsOK honest ss n { next with commands := cg next, replies := rg next })
    (hp : Paired st next → Paired { st with commands := cf st, replies := rf st }
      { next with commands := cg next, replies := rg next }) :
    Sound honest w ((w.modify n fun st => { st with commands := cg st, replies := rg st }).modify j
      fun st => { st with commands := cf st, replies := rf st }) := by
  obtain ⟨hlt, next', request, hn', hrole⟩ := (h.streams j st hj).opened n hopened
  obtain rfl : next = next' := Option.some.inj (hn.symm.trans hn')
  have hne : n ≠ j := Nat.ne_of_gt hlt
  have hgn := Ext.modifyAt (f := fun st => { st with commands := cg st, replies := rg st }) hn
    (.cells next _ _)
  have hs := h.streams.modify hn ((h.streams n next hn).cells hgn _ _ (hg _))
  have hj' := (getElem?_modify_other (f := fun st => { st with commands := cg st, replies := rg st })
    hne).trans hj
  have hfj := Ext.modifyAt (f := fun st => { st with commands := cf st, replies := rf st }) hj'
    (.cells st _ _)
  have hs' := hs.modify hj' ((hs j st hj').cells hfj _ _ (hf _))
  refine ⟨⟨hs', h.pairs.forward h.streams hj hopened hn (.cells st _ _) rfl rfl hasked htaken hreplies
    hp, fun e he => (h.circuits e he).ext (hgn.trans hfj)⟩, ?_, rfl, rfl⟩
  refine Extends.trans Silent.trans (Extends.modify Silent.refl fun a ha => ?_)
    (Extends.modify Silent.refl fun a ha => ?_)
  · obtain rfl : next = a := Option.some.inj (hn.symm.trans ha)
    refine ⟨.cells next _ _, fun second hr => ?_⟩
    rw [hrole] at hr
    cases hr
  · obtain rfl : st = a := Option.some.inj (hj'.symm.trans ha)
    exact ⟨.cells st _ _, fun _ _ => ⟨hasked, htaken⟩⟩

theorem Net.forward (h : Net honest w) (j : Nat) (back : Bool) :
    Sound honest w (w.forward j back) := by
  unfold World.forward
  split
  · exact .refl h
  · next st hj =>
    split
    · next n hstate hopened =>
      split
      · exact .refl h
      · next next hn =>
        split
        · split
          · exact .refl h
          · next cell hcell =>
            refine h.hands hj hopened hn rfl rfl (List.prefix_append _ _)
              (fun _ hc => hc.pushReply hstate cell)
              (fun _ hc => ⟨hc.replies, hc.length, hc.handler⟩) fun hp => ?_
            refine ⟨hp.commands, ?_, hp.asked, Channel.taken_lt hcell⟩
            show st.replies.sent ++ [cell] = next.replies.sent.take (next.replies.taken + 1)
            rw [Channel.take_push hcell, hp.replies]
        · split
          · exact .refl h
          · next cell hcell =>
            refine h.hands hj hopened hn rfl rfl List.prefix_rfl
              (fun _ hc => ⟨hc.replies, hc.length, ?_⟩) (fun _ hc => hc.push cell) fun hp => ?_
            · have hprogress := hc.handler
              rw [hstate] at hprogress
              show Progress _ st.handler
              rw [hstate]
              exact hprogress
            · refine ⟨?_, hp.replies, Channel.taken_lt hcell, hp.given⟩
              show next.commands.sent ++ [cell] = st.commands.sent.take (st.commands.taken + 1)
              rw [Channel.take_push hcell, hp.commands]
    · exact .refl h

/-! ## The other events -/

theorem Net.moved (h : Net honest w) (j : Nat) (client : Bool) (host : String) (port : Int) :
    Sound honest w (w.modify j fun st =>
      if client then
        { st with clientEnd := { st.clientEnd with remoteHost := host, remotePort := port } }
      else { st with serverEnd := { st.serverEnd with remoteHost := host, remotePort := port } }) := by
  cases hj : w.streams[j]? with
  | none =>
    have hw : w.streams.modify j (fun st =>
        if client then
          { st with clientEnd := { st.clientEnd with remoteHost := host, remotePort := port } }
        else { st with serverEnd := { st.serverEnd with remoteHost := host, remotePort := port } }) =
        w.streams := List.modify_eq_self (List.getElem?_eq_none_iff.mp hj)
    unfold World.modify
    rw [hw]
    exact .refl h
  | some st =>
    cases client with
    | true =>
      exact h.control hj ⟨rfl, rfl, rfl, fun _ h => h, .refl _, fun _ h => h⟩ rfl rfl rfl
        (fun _ hm => .inl hm) (fun _ hm => .inl hm) (.inl rfl)
    | false =>
      exact h.control hj ⟨rfl, rfl, rfl, .refl _, fun _ h => h, fun _ h => h⟩ rfl rfl rfl
        (fun _ hm => .inl hm) (fun _ hm => .inl hm) (.inl rfl)

theorem Net.destinationSends (h : Net honest w) (j : Nat) (m : Control) :
    Sound honest w (w.destinationSends l j m) := by
  unfold World.destinationSends
  split
  · exact .refl h
  · next st hj =>
    split
    · exact .refl h
    · next hrole =>
      split
      · next wire guard =>
        split
        · exact .refl h
        · next digest clientEnd hobserved =>
          refine h.control hj ⟨rfl, rfl, rfl, Endpoint.later_of_digest hobserved, .refl _,
            fun _ h => h⟩ rfl rfl rfl (fun m hm => ?_) (fun _ hm => .inl hm) (.inl rfl)
          refine (Channel.mem_push.mp hm).imp_right fun he => ?_
          unfold MessageOK
          dsimp only
          rw [not_not.mp hrole, he]
          intro wire' guard' hm
          injection hm with _ hguard
          rw [← hguard]
          exact (Endpoint.digest_spec hobserved).1
      · next m hm =>
        refine h.control hj ⟨rfl, rfl, rfl, .refl _, .refl _, fun _ h => h⟩ rfl rfl rfl
          (fun m' hm' => ?_) (fun _ hm => .inl hm) (.inl rfl)
        refine (Channel.mem_push.mp hm').imp_right fun he => ?_
        unfold MessageOK
        dsimp only
        rw [not_not.mp hrole, he]
        exact fun wire guard hdest => absurd hdest (hm wire guard)

theorem Net.inject (h : Net honest w) (j : Nat) (x : World.Injected) :
    Sound honest w (w.inject honest j x) := by
  unfold World.inject
  split
  · exact .refl h
  · next st hj =>
    have hok := h.streams j st hj
    split
    · next m =>
      split
      · next hrole =>
        refine h.control hj ⟨rfl, rfl, rfl, .refl _, .refl _, fun _ h => h⟩ rfl rfl rfl
          (fun m' hm' => .inr ?_) (fun _ hm => .inl hm) (.inl rfl)
        unfold MessageOK
        dsimp only
        rw [hrole]
        trivial
      · exact .refl h
    · next c =>
      split
      · next hrole =>
        exact h.modify hj (hok.cells (Ext.modifyAt hj (.cells _ _ _)) _ _ fun hc => hc.push c)
          ⟨fun hne => absurd hrole hne, rfl, List.prefix_rfl, fun _ second hr => by
            rw [hrole] at hr
            cases hr⟩
      · exact .refl h
    · next m =>
      split
      · exact .refl h
      · next hserver =>
        exact h.control hj ⟨rfl, rfl, rfl, .refl _, .refl _, fun _ h => h⟩ rfl rfl rfl
          (fun _ hm => .inl hm) (fun _ _ => .inr fun hs => absurd hs hserver) (.inl rfl)
    · next b =>
      split
      · exact .refl h
      · next hserver =>
        exact h.modify hj ⟨⟨rfl, rfl, rfl, .refl _, .refl _, fun _ h => h⟩, rfl, fun _ hm => .inl hm,
          .inl rfl, fun _ hm => .inl hm, hok.first, fun hs => absurd hs hserver⟩
          ⟨fun _ => rfl, rfl, List.prefix_append _ _, fun hs => absurd hs hserver⟩

end Sound

end HyperDht.Private.RouteNetwork
