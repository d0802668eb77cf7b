import HyperDht.Lib.Modify
import HyperDht.Private.RouteNetwork

/-!
# What the streams of a route tell

What once holds of the streams and stays so: who opened a stream and to whom, and what its ends
have observed (`Later`, `Ext`). The facts a party relies on are stated over these only: an entry
holds a registration of its guard (`Registered`), answers the second relay from one (`Answers`),
the second relay answers the source (`Activates`), and so does the first (`Builds`). `StreamOK` is
what holds of every stream, and stays as long as a handler keeps its part (`Update`); `Pairs` ties
the cells on the two streams of a first relay.
-/

namespace HyperDht.Private.RouteNetwork

open SourceRoute
open SourceRoute.SourceController (requireDiverse)

theorem Endpoint.digest_spec {l : Primitives} {e e' : Endpoint} {d : Bytes}
    (h : e.relayDiversityDigest l = some (d, e')) :
    e'.digest? = some d ∧ ∀ d', e.digest? = some d' → d' = d := by
  unfold relayDiversityDigest at h
  split at h
  · next o ho =>
    split at h
    · cases h
      exact ⟨by rw [digest?, ho]; rfl, fun d' hd => by rw [digest?, ho] at hd; cases hd; rfl⟩
    · split at h
      · cases h
      · split at h
        · cases h
        · cases h
          exact ⟨rfl, fun d' hd => by rw [digest?, ho] at hd; cases hd; rfl⟩
  · next ho =>
    split at h
    · cases h
    · dsimp only at h
      split at h
      · cases h
      · cases h
        exact ⟨rfl, fun d' hd => by rw [digest?, ho] at hd; cases hd⟩

/-! ## What stays -/

/-- What stays of an end: the digest of the first observation. -/
def Endpoint.Later (e e' : Endpoint) : Prop := ∀ d, e.digest? = some d → e'.digest? = some d

theorem Endpoint.later_of_digest {l : Primitives} {e e' : Endpoint} {d : Bytes}
    (h : e.relayDiversityDigest l = some (d, e')) : e.Later e' := by
  obtain ⟨he, hd⟩ := digest_spec h
  intro d' hd'
  rw [he, hd d' hd']

/-- What stays of a stream. -/
structure Later (st st' : Stream) : Prop where
  role : st'.role = st.role
  client : st'.client = st.client
  server : st'.server = st.server
  clientEnd : st.clientEnd.Later st'.clientEnd
  serverEnd : st.serverEnd.Later st'.serverEnd
  opened : ∀ n, st.opened = some n → st'.opened = some n

theorem Later.refl (st : Stream) : Later st st :=
  ⟨rfl, rfl, rfl, fun _ h => h, fun _ h => h, fun _ h => h⟩

theorem Later.trans {st st' st'' : Stream} (h : Later st st') (h' : Later st' st'') :
    Later st st'' :=
  ⟨h'.role.trans h.role, h'.client.trans h.client, h'.server.trans h.server,
    fun d hd => h'.clientEnd d (h.clientEnd d hd), fun d hd => h'.serverEnd d (h.serverEnd d hd),
    fun n hn => h'.opened n (h.opened n hn)⟩

/-- What stays of all streams. -/
abbrev Ext (ss ss' : List Stream) : Prop := Extends Later ss ss'

theorem Ext.trans {ss ss' ss'' : List Stream} (h : Ext ss ss') (h' : Ext ss' ss'') : Ext ss ss'' :=
  Extends.trans (fun _ _ _ ha hb => ha.trans hb) h h'

theorem Ext.modify {ss : List Stream} {j : Nat} {f : Stream → Stream}
    (h : ∀ st, ss[j]? = some st → Later st (f st)) : Ext ss (ss.modify j f) :=
  Extends.modify Later.refl h

theorem Ext.modifyAt {ss : List Stream} {j : Nat} {st : Stream} {f : Stream → Stream}
    (hj : ss[j]? = some st) (hl : Later st (f st)) : Ext ss (ss.modify j f) :=
  Ext.modify fun a ha => by
    rw [hj] at ha
    cases ha
    exact hl

theorem Ext.append (ss ss' : List Stream) : Ext ss (ss ++ ss') := Extends.append Later.refl ss ss'

/-! ## Facts -/

abbrev entryKey (wire : Bytes) : Bytes := (fieldsOf wire).entryRelayPublicKey

abbrev guardKey (wire : Bytes) : Bytes := (fieldsOf wire).destinationGuardPublicKey

section Facts

variable (honest : Bytes → Bool)

/-- A registration at an entry: the entry observed the guard as registered, and the guard, if it
runs this code, observed the entry so and was told its own digest by its client. -/
def Registered (ss : List Stream) (relay wire guard entry : Bytes) : Prop :=
  ∃ (d : Nat) (st : Stream), ss[d]? = some st ∧ st.server = relay ∧ st.client = guardKey wire ∧
    st.serverEnd.digest? = some guard ∧
    (honest (guardKey wire) = true → ∃ (h : Nat) (sh : Stream), ss[h]? = some sh ∧
      st.role = .relay h (.entryRegister wire guard entry) ∧ sh.server = guardKey wire ∧
      st.clientEnd.digest? = some entry ∧
      (sh.role = .destination → sh.clientEnd.digest? = some guard))

/-- The entry's answer on a stream: it observed the second relay as the source says. -/
def Answers (ss : List Stream) (c : Nat) (wire second guard entry : Bytes) : Prop :=
  ∃ st : Stream, ss[c]? = some st ∧ st.serverEnd.digest? = some second ∧
    Registered honest ss st.server wire guard entry

/-- The second relay's answer on a stream: it observed the first relay as the source says and the
entry as its answer says. -/
def Activates (ss : List Stream) (b : Nat) (wire first second reply : Bytes) : Prop :=
  ∃ (st : Stream) (guard entry : Bytes), ss[b]? = some st ∧ st.serverEnd.digest? = some first ∧
    reply = statusOk :: (guard ++ entry) ∧ guard.length = 32 ∧ entry.length = 32 ∧
    ∃ (c : Nat) (next : Stream), ss[c]? = some next ∧
      next.role = .relay b (.entryActivate wire first second) ∧ next.server = entryKey wire ∧
      next.clientEnd.digest? = some entry ∧
      (honest (entryKey wire) = true → Answers honest ss c wire second guard entry)

/-- The first relay's answer on a stream: what it observed of the second relay. -/
def Builds (ss : List Stream) (j : Nat) (digest : Bytes) : Prop :=
  ∃ (st next : Stream) (c : Nat), ss[j]? = some st ∧ st.opened = some c ∧ ss[c]? = some next ∧
    next.role = .relay j .extendSource ∧ next.clientEnd.digest? = some digest

variable {honest}
variable {ss ss' : List Stream}

theorem Registered.ext {relay wire guard entry : Bytes} (hx : Ext ss ss')
    (h : Registered honest ss relay wire guard entry) :
    Registered honest ss' relay wire guard entry := by
  obtain ⟨d, st, hd, hserver, hclient, hdigest, hguard⟩ := h
  obtain ⟨st', hd', hl⟩ := hx d st hd
  refine ⟨d, st', hd', hl.server.trans hserver, hl.client.trans hclient, hl.serverEnd _ hdigest, ?_⟩
  intro hhonest
  obtain ⟨h, sh, hh, hrole, hserver', hentry, hdest⟩ := hguard hhonest
  obtain ⟨sh', hh', hl'⟩ := hx h sh hh
  refine ⟨h, sh', hh', hl.role.trans hrole, hl'.server.trans hserver', hl.clientEnd _ hentry, ?_⟩
  intro hr
  exact hl'.clientEnd _ (hdest (hl'.role ▸ hr))

theorem Answers.ext {c : Nat} {wire second guard entry : Bytes} (hx : Ext ss ss')
    (h : Answers honest ss c wire second guard entry) :
    Answers honest ss' c wire second guard entry := by
  obtain ⟨st, hc, hdigest, hreg⟩ := h
  obtain ⟨st', hc', hl⟩ := hx c st hc
  exact ⟨st', hc', hl.serverEnd _ hdigest, by rw [hl.server]; exact hreg.ext hx⟩

theorem Activates.ext {b : Nat} {wire first second reply : Bytes} (hx : Ext ss ss')
    (h : Activates honest ss b wire first second reply) :
    Activates honest ss' b wire first second reply := by
  obtain ⟨st, guard, entry, hb, hdigest, hreply, hg, he, c, next, hc, hrole, hserver, hentry,
    hans⟩ := h
  obtain ⟨st', hb', hl⟩ := hx b st hb
  obtain ⟨next', hc', hl'⟩ := hx c next hc
  exact ⟨st', guard, entry, hb', hl.serverEnd _ hdigest, hreply, hg, he, c, next', hc',
    hl'.role.trans hrole, hl'.server.trans hserver, hl'.clientEnd _ hentry,
    fun hhonest => (hans hhonest).ext hx⟩

theorem Builds.ext {j : Nat} {digest : Bytes} (hx : Ext ss ss') (h : Builds ss j digest) :
    Builds ss' j digest := by
  obtain ⟨st, next, c, hj, hopened, hc, hrole, hdigest⟩ := h
  obtain ⟨st', hj', hl⟩ := hx j st hj
  obtain ⟨next', hc', hl'⟩ := hx c next hc
  exact ⟨st', next', c, hj', hl.opened _ hopened, hc', hl'.role.trans hrole,
    hl'.clientEnd _ hdigest⟩

end Facts

/-! ## The commands of a source -/

/-- The first `SOURCE_ACTIVATE` among commands. -/
def FirstActivate (cs : List Command) (k : Nat) (wire first second : Bytes) : Prop :=
  cs[k]? = some (.activate wire first second) ∧
    ∀ i < k, ∀ wire first second, cs[i]? ≠ some (.activate wire first second)

/-- The commands before `n` are there and none of them is a `SOURCE_ACTIVATE`. -/
def NoActivate (cs : List Command) (n : Nat) : Prop :=
  n ≤ cs.length ∧ ∀ i < n, ∀ wire first second, cs[i]? ≠ some (.activate wire first second)

theorem getElem?_concat_of_lt {α : Type} {l : List α} {a : α} {i : Nat} (h : i < l.length) :
    (l ++ [a])[i]? = l[i]? := List.getElem?_append_left h

theorem FirstActivate.push {cs : List Command} {k : Nat} {wire first second : Bytes}
    (h : FirstActivate cs k wire first second) (c : Command) :
    FirstActivate (cs ++ [c]) k wire first second := by
  have hk : k < cs.length := (List.getElem?_eq_some_iff.mp h.1).1
  refine ⟨by rw [getElem?_concat_of_lt hk]; exact h.1, fun i hi => ?_⟩
  rw [getElem?_concat_of_lt (Nat.lt_trans hi hk)]
  exact h.2 i hi

theorem NoActivate.push {cs : List Command} {n : Nat} (h : NoActivate cs n) (c : Command) :
    NoActivate (cs ++ [c]) n := by
  refine ⟨by rw [List.length_append]; exact Nat.le_add_right_of_le h.1, fun i hi => ?_⟩
  rw [getElem?_concat_of_lt (Nat.lt_of_lt_of_le hi h.1)]
  exact h.2 i hi

theorem FirstActivate.unique {cs : List Command} {k k' : Nat} {wire first second : Bytes}
    {wire' first' second' : Bytes} (h : FirstActivate cs k wire first second)
    (h' : FirstActivate cs k' wire' first' second') : k = k' := by
  rcases Nat.lt_trichotomy k k' with hlt | he | hlt
  · exact absurd h.1 (h'.2 k hlt _ _ _)
  · exact he
  · exact absurd h'.1 (h.2 k' hlt _ _ _)

/-- The command that is added is the first `SOURCE_ACTIVATE` only where it stands behind others. -/
theorem FirstActivate.of_push {cs : List Command} {c : Command} {k : Nat}
    {wire first second : Bytes} (h : FirstActivate (cs ++ [c]) k wire first second) :
    FirstActivate cs k wire first second ∨ k = cs.length ∧ NoActivate cs k := by
  rcases getElem?_concat_iff.mp h.1 with hold | ⟨hk, -⟩
  · have hlt : k < cs.length := (List.getElem?_eq_some_iff.mp hold).1
    refine .inl ⟨hold, fun i hi => ?_⟩
    have := h.2 i hi
    rwa [getElem?_concat_of_lt (Nat.lt_trans hi hlt)] at this
  · refine .inr ⟨hk, Nat.le_of_eq hk, fun i hi => ?_⟩
    have := h.2 i hi
    rwa [getElem?_concat_of_lt (hk ▸ hi)] at this


/-! ## What holds of a stream -/

/-- The stream that a handler opened, with its request. -/
def Opened (ss : List Stream) (j : Nat) (st : Stream) (request : Control) : Prop :=
  ∃ (n : Nat) (next : Stream), st.opened = some n ∧ ss[n]? = some next ∧
    next.role = .relay j request

/-- What a relay opens a stream for. -/
def RequestOK (parent st : Stream) : Control → Prop
  | .extendSource => ∀ second, parent.role = .source second → st.server = second
  | .entryActivate wire _ _ => st.server = entryKey wire
  | .entryRegister wire guard entry =>
    parent.server = guardKey wire ∧ st.server = entryKey wire ∧
      st.clientEnd.digest? = some entry ∧
      (parent.role = .destination → parent.clientEnd.digest? = some guard)
  | _ => False

/-- What a client sends. -/
def MessageOK (st : Stream) (m : Control) : Prop :=
  match st.role with
  | .source second => m = .buildSource second
  | .relay _ request => m = request ∨ m = .entryCommit
  | .destination => ∀ wire guard, m = .destination wire guard → st.clientEnd.digest? = some guard
  | .other => True

/-- How far the handler of the first relay of a source may be. -/
def FirstHandler (second : Bytes) : Handler → Prop
  | .idle | .awaitExtend | .bridge | .dead => True
  | .dialSecond second' => second' = second
  | _ => False

section Streams

variable (honest : Bytes → Bool) (ss : List Stream) (j : Nat) (st : Stream)

/-- What a handler has done so far. -/
def HandlerOK : Handler → Prop
  | .idle | .dialSecond _ | .commands | .challenged _ | .identified _ _ => st.opened = none
  | .awaitExtend => Opened ss j st .extendSource
  | .dialEntry _ first _ => st.opened = none ∧ st.serverEnd.digest? = some first
  | .awaitActivation wire first second =>
    st.serverEnd.digest? = some first ∧ Opened ss j st (.entryActivate wire first second)
  | .registering wire guard entry =>
    st.opened = none ∧ Registered honest ss st.server wire guard entry
  | .dialForGuard wire guard =>
    st.opened = none ∧ st.server = guardKey wire ∧
      (st.role = .destination → st.clientEnd.digest? = some guard)
  | _ => True

/-- What a relay that runs this code answers. -/
def AnswerOK : Control → Prop
  | .built digest => Builds ss j digest
  | .entryActivated guard entry =>
    ∀ b wire first second, st.role = .relay b (.entryActivate wire first second) →
      Answers honest ss j wire second guard entry
  | _ => True

/-- How far the second relay is with the commands of a source: nothing is answered past the first
`SOURCE_ACTIVATE` before the entry has answered. -/
def Progress : Handler → Prop
  | .idle => st.replies.sent = [] ∧ st.commands.taken = 0
  | .commands =>
    st.replies.sent.length = st.commands.taken ∧ NoActivate st.commands.sent st.commands.taken
  | .dialEntry wire first second | .awaitActivation wire first second =>
    FirstActivate st.commands.sent st.replies.sent.length wire first second
  | .bridge =>
    ∃ k wire first second,
      FirstActivate st.commands.sent k wire first second ∧ k < st.replies.sent.length
  | .dead => True
  | _ => False

/-- The cells on a stream to a second relay. -/
structure CommandsOK : Prop where
  replies : ∀ k wire first second reply, FirstActivate st.commands.sent k wire first second →
    st.replies.sent[k]? = some reply → Activates honest ss j wire first second reply
  length : (∃ k wire first second,
      FirstActivate st.commands.sent k wire first second ∧ k < st.replies.sent.length) ∨
    NoActivate st.commands.sent st.replies.sent.length
  handler : Progress st st.handler

structure StreamOK : Prop where
  client : honest st.client = true → ∃ p request, st.role = .relay p request
  parent : ∀ p request, st.role = .relay p request → ∃ parent, ss[p]? = some parent ∧
    st.client = parent.server ∧ RequestOK parent st request
  opened : ∀ n, st.opened = some n → j < n ∧ ∃ next request, ss[n]? = some next ∧
    next.role = .relay j request
  messages : ∀ m ∈ st.toServer.sent, MessageOK st m
  handler : HandlerOK honest ss j st st.handler
  answers : honest st.server = true → ∀ m ∈ st.toClient.sent, AnswerOK honest ss j st m
  first : ∀ second, st.role = .source second → FirstHandler second st.handler
  second : honest st.server = true → ∀ p, st.role = .relay p .extendSource →
    CommandsOK honest ss j st

end Streams

/-! ## What later streams leave true -/

section Later

variable {honest : Bytes → Bool} {ss ss' : List Stream} {j : Nat} {st st' : Stream}

theorem Opened.later {request : Control} (h : Opened ss j st request) (hx : Ext ss ss')
    (hl : Later st st') : Opened ss' j st' request := by
  obtain ⟨n, next, hopened, hn, hrole⟩ := h
  obtain ⟨next', hn', hl'⟩ := hx n next hn
  exact ⟨n, next', hl.opened n hopened, hn', hl'.role.trans hrole⟩

theorem RequestOK.later {parent parent' : Stream} {request : Control}
    (h : RequestOK parent st request) (hp : Later parent parent') (hl : Later st st') :
    RequestOK parent' st' request := by
  cases request with
  | extendSource =>
    intro second hr
    rw [hl.server]
    exact h second (hp.role ▸ hr)
  | entryActivate wire first second => exact hl.server.trans h
  | entryRegister wire guard entry =>
    obtain ⟨hg, he, hd, hdest⟩ := h
    exact ⟨hp.server.trans hg, hl.server.trans he, hl.clientEnd _ hd,
      fun hr => hp.clientEnd _ (hdest (hp.role ▸ hr))⟩
  | _ => exact h

theorem MessageOK.later {m : Control} (h : MessageOK st m) (hl : Later st st') :
    MessageOK st' m := by
  unfold MessageOK at h ⊢
  rw [hl.role]
  split
  · next hr => rw [hr] at h; exact h
  · next hr => rw [hr] at h; exact h
  · next hr =>
    rw [hr] at h
    exact fun wire guard hm => hl.clientEnd _ (h wire guard hm)
  · trivial

theorem HandlerOK.later {handler : Handler} (h : HandlerOK honest ss j st handler)
    (hx : Ext ss ss') (hl : Later st st') (ho : st'.opened = st.opened) :
    HandlerOK honest ss' j st' handler := by
  unfold HandlerOK at h ⊢
  split
  · exact ho.trans h
  · exact ho.trans h
  · exact ho.trans h
  · exact ho.trans h
  · exact ho.trans h
  · exact Opened.later h hx hl
  · exact ⟨ho.trans h.1, hl.serverEnd _ h.2⟩
  · exact ⟨hl.serverEnd _ h.1, Opened.later h.2 hx hl⟩
  · exact ⟨ho.trans h.1, by rw [hl.server]; exact h.2.ext hx⟩
  · exact ⟨ho.trans h.1, hl.server.trans h.2.1, fun hr => hl.clientEnd _ (h.2.2 (hl.role ▸ hr))⟩
  · trivial

theorem AnswerOK.later {m : Control} (h : AnswerOK honest ss j st m) (hx : Ext ss ss')
    (hl : Later st st') : AnswerOK honest ss' j st' m := by
  unfold AnswerOK at h ⊢
  split
  · exact Builds.ext hx h
  · intro b wire first second hr
    exact (h b wire first second (hl.role ▸ hr)).ext hx
  · trivial

theorem CommandsOK.ext (h : CommandsOK honest ss j st) (hx : Ext ss ss') :
    CommandsOK honest ss' j st :=
  ⟨fun k wire first second reply hk hr => (h.replies k wire first second reply hk hr).ext hx,
    h.length, h.handler⟩

/-- What a change of one stream keeps to. -/
structure Update (honest : Bytes → Bool) (ss' : List Stream) (j : Nat) (st st' : Stream) : Prop where
  later : Later st st'
  opened : st'.opened = st.opened
  messages : ∀ m ∈ st'.toServer.sent, m ∈ st.toServer.sent ∨ MessageOK st' m
  handler : st'.handler = st.handler ∨ HandlerOK honest ss' j st' st'.handler
  answers : ∀ m ∈ st'.toClient.sent, m ∈ st.toClient.sent ∨
    (honest st.server = true → AnswerOK honest ss' j st' m)
  first : ∀ second, st.role = .source second → FirstHandler second st'.handler
  second : honest st.server = true → ∀ p, st.role = .relay p .extendSource →
    CommandsOK honest ss' j st'

theorem StreamOK.ext (h : StreamOK honest ss j st) (hx : Ext ss ss') : StreamOK honest ss' j st where
  client := h.client
  parent := by
    intro p request hr
    obtain ⟨parent, hp, hclient, hok⟩ := h.parent p request hr
    obtain ⟨parent', hp', hl⟩ := hx p parent hp
    exact ⟨parent', hp', hclient.trans hl.server.symm, hok.later hl (.refl st)⟩
  opened := by
    intro n hn
    obtain ⟨hlt, next, request, hnext, hrole⟩ := h.opened n hn
    obtain ⟨next', hnext', hl⟩ := hx n next hnext
    exact ⟨hlt, next', request, hnext', hl.role.trans hrole⟩
  messages := h.messages
  handler := h.handler.later hx (.refl st) rfl
  answers := fun hs m hm => (h.answers hs m hm).later hx (.refl st)
  first := h.first
  second := fun hs p hr => (h.second hs p hr).ext hx

theorem StreamOK.update (h : StreamOK honest ss j st) (hx : Ext ss ss')
    (hu : Update honest ss' j st st') : StreamOK honest ss' j st' where
  client := by
    intro hc
    rw [hu.later.client] at hc
    rw [hu.later.role]
    exact h.client hc
  parent := by
    intro p request hr
    obtain ⟨parent, hp, hclient, hok⟩ := (h.ext hx).parent p request (hu.later.role ▸ hr)
    exact ⟨parent, hp, hu.later.client.trans hclient, hok.later (.refl parent) hu.later⟩
  opened := by
    intro n hn
    obtain ⟨hlt, next, request, hnext, hrole⟩ := (h.ext hx).opened n (hu.opened ▸ hn)
    exact ⟨hlt, next, request, hnext, hrole⟩
  messages := by
    intro m hm
    rcases hu.messages m hm with hold | hnew
    · exact (h.messages m hold).later hu.later
    · exact hnew
  handler := by
    rcases hu.handler with hold | hnew
    · rw [hold]
      exact h.handler.later hx hu.later hu.opened
    · exact hnew
  answers := by
    intro hs m hm
    rw [hu.later.server] at hs
    rcases hu.answers m hm with hold | hnew
    · exact (h.answers hs m hold).later hx hu.later
    · exact hnew hs
  first := fun second hr => hu.first second (hu.later.role ▸ hr)
  second := fun hs p hr => hu.second (hu.later.server ▸ hs) p (hu.later.role ▸ hr)

end Later

def StreamsOK (honest : Bytes → Bool) (ss : List Stream) : Prop :=
  ∀ j st, ss[j]? = some st → StreamOK honest ss j st

theorem StreamsOK.modify {honest : Bytes → Bool} {ss : List Stream} {j : Nat} {st : Stream}
    (h : StreamsOK honest ss) (hj : ss[j]? = some st) {f : Stream → Stream}
    (hu : Update honest (ss.modify j f) j st (f st)) : StreamsOK honest (ss.modify j f) := by
  have hx : Ext ss (ss.modify j f) := Ext.modifyAt hj hu.later
  intro i a ha
  rw [List.getElem?_modify] at ha
  by_cases he : j = i
  · subst he
    rw [hj] at ha
    obtain rfl : f st = a := by simpa using ha
    exact (h j st hj).update hx hu
  · simp only [he, if_false, Option.map_eq_map, Option.map_id'] at ha
    exact (h i a ha).ext hx

end HyperDht.Private.RouteNetwork
