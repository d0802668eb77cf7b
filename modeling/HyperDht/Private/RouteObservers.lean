import HyperDht.Private.RouteHandlers
import HyperDht.Private.RoutePhases

/-!
# The relays of a route are as diverse as they see each other

In every run of any number of sources' calls, relays, destinations and others, a call that gets
to the end of its setup has four relays with four keys, and four digests that differ; and each
digest is what the neighbours of that relay observed of it, as far as the relays on the way run
this code (`routes_diverse`).
-/

namespace HyperDht.Private.RouteNetwork

open SourceRoute
open SourceRoute.SourceController (requireDiverse)

/-! ## Routes -/

/-- What the parties of a route observed: the source of the first relay, the first and the second
of each other, the second and the entry, and the entry and the guard. `guard` and `entry` are the
digests of these two. -/
def Links (honest : Bytes → Bool) (ss : List Stream) (b : Build) (d : Descriptor)
    (guard entry : Bytes) : Prop :=
  ∃ (ja : Nat) (sa : Stream), ss[ja]? = some sa ∧ sa.role = .source b.secondSafetyRelay ∧
    sa.server = b.firstSafetyRelay ∧ sa.clientEnd.digest? = some b.firstDiversity ∧
    (honest b.firstSafetyRelay = true → ∃ (jb : Nat) (sb : Stream), ss[jb]? = some sb ∧
      sb.role = .relay ja .extendSource ∧ sb.client = b.firstSafetyRelay ∧
      sb.server = b.secondSafetyRelay ∧ sb.clientEnd.digest? = some b.secondDiversity ∧
      (honest b.secondSafetyRelay = true → sb.serverEnd.digest? = some b.firstDiversity ∧
        ∃ (jc : Nat) (sc : Stream), ss[jc]? = some sc ∧
          sc.role = .relay jb (.entryActivate d.wire b.firstDiversity b.secondDiversity) ∧
          sc.client = b.secondSafetyRelay ∧ sc.server = d.entryRelayPublicKey ∧
          sc.clientEnd.digest? = some entry ∧
          (honest d.entryRelayPublicKey = true →
            sc.serverEnd.digest? = some b.secondDiversity ∧
            Registered honest ss d.entryRelayPublicKey d.wire guard entry)))

/-- A route whose setup is done. The source keeps the digest of the guard as `entryDiversity` and
that of the entry as `guardDiversity`. -/
def Selected (honest : Bytes → Bool) (ss : List Stream) (a : Attempt) (b : Build) : Prop :=
  ∃ (d : Descriptor) (guard entry : Bytes), a.descriptor = some d ∧
    a.entryDiversity = some guard ∧ a.guardDiversity = some entry ∧
    [b.firstSafetyRelay, b.secondSafetyRelay, d.entryRelayPublicKey,
      d.destinationGuardPublicKey].Nodup ∧
    [b.firstDiversity, b.secondDiversity, guard, entry].Nodup ∧
    Links honest ss b d guard entry

/-- The stream to the first relay of a call: `q` is about the commands that the source sent on it
and how many answers it read. -/
def FirstStream (ss : List Stream) (route : Option Nat) (first second firstDiversity : Bytes)
    (q : List Command → Nat → Prop) : Prop :=
  ∃ (j : Nat) (st : Stream), route = some j ∧ ss[j]? = some st ∧ st.role = .source second ∧
    st.server = first ∧ st.clientEnd.digest? = some firstDiversity ∧
    q st.commands.sent st.replies.taken

/-- A call that has built its circuit up to the second relay. -/
structure Circuit (honest : Bytes → Bool) (ss : List Stream) (route : Option Nat) (b : Build)
    (q : List Command → Nat → Prop) : Prop where
  keys : b.firstSafetyRelay ≠ b.secondSafetyRelay
  stream : FirstStream ss route b.firstSafetyRelay b.secondSafetyRelay b.firstDiversity q
  builds : honest b.firstSafetyRelay = true → ∀ j, route = some j → Builds ss j b.secondDiversity

/-- No `SOURCE_ACTIVATE` is among the commands. -/
def Inactive (cs : List Command) : Prop :=
  ∀ wire first second, .activate wire first second ∉ cs

/-- What holds of a call in each phase. -/
def CallOK (k : Suite) (honest : Bytes → Bool) (ss : List Stream) (route : Option Nat) :
    Phase → Prop
  | .dialing _ first second _ => first ≠ second
  | .building _ first second firstDiversity =>
    first ≠ second ∧ FirstStream ss route first second firstDiversity fun cs n => cs = [] ∧ n = 0
  | .resolving _ b => Circuit honest ss route b fun cs _ => Inactive cs
  | .activating a b => Apart k a b ∧
    Circuit honest ss route b fun cs n => ∃ cs' d, a.descriptor = some d ∧ Inactive cs' ∧
      cs = cs' ++ [.activate d.wire b.firstDiversity b.secondDiversity] ∧ n = cs'.length
  | .finishing a b | .opened a b => Selected honest ss a b
  | _ => True

/-! ## What later streams leave true -/

section Later

variable {honest : Bytes → Bool} {k : Suite} {ss ss' : List Stream} {route : Option Nat}

theorem Links.ext {b : Build} {d : Descriptor} {guard entry : Bytes} (hx : Ext ss ss')
    (h : Links honest ss b d guard entry) : Links honest ss' b d guard entry := by
  obtain ⟨ja, sa, ha, hrole, hserver, hdigest, hfirst⟩ := h
  obtain ⟨sa', ha', hla⟩ := hx ja sa ha
  refine ⟨ja, sa', ha', hla.role.trans hrole, hla.server.trans hserver, hla.clientEnd _ hdigest,
    fun hh => ?_⟩
  obtain ⟨jb, sb, hb, hrole, hclient, hserver, hdigest, hsecond⟩ := hfirst hh
  obtain ⟨sb', hb', hlb⟩ := hx jb sb hb
  refine ⟨jb, sb', hb', hlb.role.trans hrole, hlb.client.trans hclient, hlb.server.trans hserver,
    hlb.clientEnd _ hdigest, fun hh => ?_⟩
  obtain ⟨hdigest, jc, sc, hc, hrole, hclient, hserver, hentry, hregistered⟩ := hsecond hh
  obtain ⟨sc', hc', hlc⟩ := hx jc sc hc
  refine ⟨hlb.serverEnd _ hdigest, jc, sc', hc', hlc.role.trans hrole, hlc.client.trans hclient,
    hlc.server.trans hserver, hlc.clientEnd _ hentry, fun hh => ?_⟩
  obtain ⟨hdigest, hreg⟩ := hregistered hh
  exact ⟨hlc.serverEnd _ hdigest, hreg.ext hx⟩

theorem Selected.ext {a : Attempt} {b : Build} (hx : Ext ss ss') (h : Selected honest ss a b) :
    Selected honest ss' a b := by
  obtain ⟨d, guard, entry, hd, hguard, hentry, hkeys, hdigests, hlinks⟩ := h
  exact ⟨d, guard, entry, hd, hguard, hentry, hkeys, hdigests, hlinks.ext hx⟩

/-- The source's own stream, where it leaves it alone. -/
def Alone (ss ss' : List Stream) (route : Option Nat) : Prop :=
  ∀ j st, route = some j → ss[j]? = some st → ∃ st', ss'[j]? = some st' ∧ Silent st st'

theorem FirstStream.later {first second firstDiversity : Bytes} {q : List Command → Nat → Prop}
    (h : FirstStream ss route first second firstDiversity q) (ha : Alone ss ss' route) :
    FirstStream ss' route first second firstDiversity q := by
  obtain ⟨j, st, hroute, hj, hrole, hserver, hdigest, hq⟩ := h
  obtain ⟨st', hj', hs⟩ := ha j st hroute hj
  obtain ⟨hsent, htaken⟩ := hs.source second hrole
  exact ⟨j, st', hroute, hj', hs.later.role.trans hrole, hs.later.server.trans hserver,
    hs.later.clientEnd _ hdigest, by rw [hsent, htaken]; exact hq⟩

theorem Circuit.later {b : Build} {q : List Command → Nat → Prop}
    (h : Circuit honest ss route b q) (hx : Ext ss ss') (ha : Alone ss ss' route) :
    Circuit honest ss' route b q :=
  ⟨h.keys, h.stream.later ha, fun hh j hj => (h.builds hh j hj).ext hx⟩

theorem CallOK.later {p : Phase} (h : CallOK k honest ss route p) (hx : Ext ss ss')
    (ha : Alone ss ss' route) : CallOK k honest ss' route p := by
  cases p with
  | building a first second firstDiversity => exact ⟨h.1, h.2.later ha⟩
  | resolving a b => exact Circuit.later h hx ha
  | activating a b => exact ⟨h.1, h.2.later hx ha⟩
  | finishing a b => exact Selected.ext hx h
  | opened a b => exact Selected.ext hx h
  | _ => exact h

theorem CallOK.restarts {p : Phase} (h : Restarts k p) : CallOK k honest ss route p := by
  cases p with
  | dialing a first second refused => exact h.1
  | discovering => trivial
  | failed => trivial
  | _ => exact h.elim

end Later

/-! ## The source's own end of a stream -/

section SourceController

variable {honest : Bytes → Bool} {w : World} {j : Nat} {st : Stream} {second : Bytes}

theorem Net.sourceEnd (h : Net honest w) (hj : w.streams[j]? = some st)
    (hr : st.role = .source second) {f : Stream → Channel Command} {g : Stream → Channel Bytes}
    (hasked : st.commands.sent <+: (f st).sent) (htaken : (f st).taken = st.commands.taken)
    (hreplies : (g st).sent = st.replies.sent) :
    Net honest (w.modify j fun st => { st with commands := f st, replies := g st }) := by
  have hx := Ext.modifyAt (f := fun st => { st with commands := f st, replies := g st }) hj
    (.cells st _ _)
  have hu : Update honest (w.modify j fun st => { st with
      commands := f st, replies := g st }).streams j st
      { st with commands := f st, replies := g st } :=
    ⟨.cells st _ _, rfl, fun _ hm => .inl hm, .inl rfl, fun _ hm => .inl hm,
      (h.streams j st hj).first, fun _ p hp => by
        rw [hr] at hp
        cases hp⟩
  refine ⟨h.streams.modify hj hu, ?_, fun e he => (h.circuits e he).ext hx⟩
  intro i a second' hi ha hrole
  rcases getElem?_modify_cases hj hi with ⟨rfl, rfl⟩ | ⟨hne, hi⟩
  · obtain ⟨hclosed, hpaired⟩ := h.pairs i st second' hj ha hrole
    refine ⟨fun hn => ?_, fun n hn => ?_⟩
    · show (g st).sent = [] ∧ (f st).taken = 0
      rw [hreplies, htaken]
      exact hclosed hn
    · obtain ⟨next, hnext, hp⟩ := hpaired n hn
      have hlt : i < n := ((h.streams i st hj).opened n hn).1
      refine ⟨next, (getElem?_modify_other (Nat.ne_of_lt hlt)).trans hnext, ?_, ?_, ?_, hp.given⟩
      · obtain ⟨more, hmore⟩ := hasked
        show next.commands.sent = (f st).sent.take (f st).taken
        rw [htaken, ← hmore, List.take_append_of_le_length hp.asked]
        exact hp.commands
      · exact hreplies.trans hp.replies
      · show (f st).taken ≤ (f st).sent.length
        rw [htaken]
        exact Nat.le_trans hp.asked hasked.length_le
  · obtain ⟨hclosed, hpaired⟩ := h.pairs i a second' hi ha hrole
    refine ⟨hclosed, fun n hn => ?_⟩
    obtain ⟨next, hnext, hp⟩ := hpaired n hn
    obtain ⟨-, next', request, hnext', hrole'⟩ := (h.streams i a hi).opened n hn
    obtain rfl : next = next' := Option.some.inj (hnext.symm.trans hnext')
    have hjn : j ≠ n := by
      rintro rfl
      obtain rfl : st = next := Option.some.inj (hj.symm.trans hnext)
      rw [hr] at hrole'
      cases hrole'
    exact ⟨next, (getElem?_modify_other hjn).trans hnext, hp⟩

theorem Inactive.nil : Inactive [] := fun _ _ _ hc => by cases hc

theorem Inactive.activate {cs : List Command} {k : Nat} {c : Command} {wire first second : Bytes}
    (h : Inactive cs) (hk : (cs ++ [c])[k]? = some (.activate wire first second)) :
    k = cs.length ∧ c = .activate wire first second := by
  rcases getElem?_concat_iff.mp hk with hold | ⟨hlength, hc⟩
  · exact absurd (List.mem_of_getElem? hold) (h wire first second)
  · exact ⟨hlength, hc.symm⟩

theorem getElem?_prefix_mono {α : Type} {l l' : List α} {i : Nat} {a : α} (h : l <+: l')
    (hi : l[i]? = some a) : l'[i]? = some a := by
  obtain ⟨more, rfl⟩ := h
  rw [List.getElem?_append_left (List.getElem?_eq_some_iff.mp hi).1]
  exact hi

/-- The first relay handed on the `SOURCE_ACTIVATE`, and the answer to it. -/
theorem CommandsOK.first {ss : List Stream} {next : Stream} {n : Nat} {cs : List Command}
    {d : Descriptor} {first : Bytes} {response : Bytes} (h : CommandsOK honest ss n next)
    (hp : Paired st next) (hinactive : Inactive cs)
    (hcs : st.commands.sent = cs ++ [.activate d.wire first second])
    (hreply : st.replies.sent[cs.length]? = some response) :
    Activates honest ss n d.wire first second response := by
  have hprefix : next.commands.sent <+: cs ++ [.activate d.wire first second] := by
    rw [hp.commands, hcs]
    exact List.take_prefix _ _
  have hreply' : next.replies.sent[cs.length]? = some response := by
    rw [hp.replies] at hreply
    exact getElem?_prefix_mono (List.take_prefix _ _) hreply
  have hlt : cs.length < next.replies.sent.length := (List.getElem?_eq_some_iff.mp hreply').1
  rcases h.length with ⟨k, wire, first', second', hk, -⟩ | hnone
  · obtain ⟨rfl, hc⟩ := hinactive.activate (getElem?_prefix_mono hprefix hk.1)
    cases hc
    exact h.replies _ _ _ _ _ hk hreply'
  · -- the command at that place was handed on, so that the answers past it need one
    have hlast : (cs ++ [.activate d.wire first second])[cs.length]? =
        some (.activate d.wire first second) := getElem?_concat_iff.mpr (.inr ⟨rfl, rfl⟩)
    obtain ⟨more, hmore⟩ := hprefix
    rw [← hmore, List.getElem?_append_left (Nat.lt_of_lt_of_le hlt hnone.1)] at hlast
    exact absurd hlast (hnone.2 _ hlt _ _ _)

theorem subarray_status {guard entry : Bytes} (hg : guard.length = 32) (he : entry.length = 32) :
    subarray (statusOk :: (guard ++ entry)) 1 33 = guard ∧
      subarray (statusOk :: (guard ++ entry)) 33 65 = entry := by
  unfold subarray
  refine ⟨?_, ?_⟩
  · show (guard ++ entry).take 32 = guard
    rw [List.take_append_of_le_length (Nat.le_of_eq hg.symm), ← hg, List.take_length]
  · show ((guard ++ entry).drop 32).take 32 = entry
    rw [← hg, List.drop_left, hg, ← he, List.take_length]

theorem Net.links (h : Net honest w) (hj : w.streams[j]? = some st) {b : Build}
    (hr : st.role = .source b.secondSafetyRelay) (hserver : st.server = b.firstSafetyRelay)
    (hdigest : st.clientEnd.digest? = some b.firstDiversity)
    (hbuilds : honest b.firstSafetyRelay = true → Builds w.streams j b.secondDiversity)
    {cs : List Command} (hinactive : Inactive cs) {d : Descriptor} (hd : d = fieldsOf d.wire)
    (hcs : st.commands.sent = cs ++ [.activate d.wire b.firstDiversity b.secondDiversity])
    {response : Bytes} (hreply : st.replies.sent[cs.length]? = some response) :
    Links honest w.streams b d (subarray response 1 33) (subarray response 33 65) := by
  refine ⟨j, st, hj, hr, hserver, hdigest, fun hfirst => ?_⟩
  obtain ⟨st', next, n, hj', hopened, hn, hrole, hbuilt⟩ := hbuilds hfirst
  obtain rfl : st = st' := Option.some.inj (hj.symm.trans hj')
  have hnext := h.streams n next hn
  obtain ⟨parent, hparent, hclient, hrequest⟩ := hnext.parent j _ hrole
  obtain rfl : st = parent := Option.some.inj (hj.symm.trans hparent)
  have hsecond : next.server = b.secondSafetyRelay := hrequest _ hr
  refine ⟨n, next, hn, hrole, hclient.trans hserver, hsecond, hbuilt, fun hh => ?_⟩
  obtain ⟨next', hn', hp⟩ := (h.pairs j st _ hj (hserver ▸ hfirst) hr).paired n hopened
  obtain rfl : next = next' := Option.some.inj (hn.symm.trans hn')
  obtain ⟨sb, guard, entry, hb, hobserved, rfl, hg, he, jc, sc, hc, hcrole, hcserver, hcentry,
    hanswer⟩ := (hnext.second (hsecond ▸ hh) j hrole).first hp hinactive hcs hreply
  obtain rfl : next = sb := Option.some.inj (hn.symm.trans hb)
  obtain ⟨hguard, hentry⟩ := subarray_status hg he
  rw [hguard, hentry]
  obtain ⟨parent, hparent, hcclient, -⟩ := (h.streams jc sc hc).parent n _ hcrole
  obtain rfl : next = parent := Option.some.inj (hn.symm.trans hparent)
  have hkey : entryKey d.wire = d.entryRelayPublicKey := congrArg _ hd.symm
  refine ⟨hobserved, jc, sc, hc, hcrole, hcclient.trans hsecond, hcserver.trans hkey, hcentry,
    fun hentryHonest => ?_⟩
  obtain ⟨sc', hc', hsecondDigest, hregistered⟩ := hanswer (hkey ▸ hentryHonest)
  obtain rfl : sc = sc' := Option.some.inj (hc.symm.trans hc')
  exact ⟨hsecondDigest, by rw [← hkey, ← hcserver]; exact hregistered⟩

end SourceController

/-! ## Every call -/

/-- What holds in every state of a run. -/
structure Inv (k : Suite) (honest : Bytes → Bool) (w : World) : Prop where
  net : Net honest w
  calls : ∀ i session, w.source.sessions[i]? = some session → session.phase.Decoded k ∧
    CallOK k honest w.streams (w.routes i) session.phase
  routes : ∀ i j, w.routes i = some j → j < w.streams.length
  distinct : ∀ i i' j, w.routes i = some j → w.routes i' = some j → i = i'

section Steps

variable {honest : Bytes → Bool} {k : Suite} {l : Primitives} {w w' : World} {i j : Nat}
  {session : Session} {st : Stream}

theorem Ext.length_le {ss ss' : List Stream} (h : Ext ss ss') : ss.length ≤ ss'.length := by
  by_contra hlt
  obtain ⟨st', hst', -⟩ := h ss'.length _ (List.getElem?_eq_getElem (Nat.lt_of_not_le hlt))
  rw [List.getElem?_eq_none (Nat.le_refl _)] at hst'
  cases hst'

theorem Inv.sound (h : Inv k honest w) (hs : Sound honest w w') : Inv k honest w' := by
  have hx : Ext w.streams w'.streams := hs.streams.mono fun _ _ hl => hl.later
  refine ⟨hs.net, ?_, ?_, ?_⟩
  · rw [hs.source, hs.routes]
    intro i session hi
    obtain ⟨hd, hc⟩ := h.calls i session hi
    exact ⟨hd, hc.later hx fun j st _ hj => hs.streams j st hj⟩
  · rw [hs.routes]
    exact fun i j hr => Nat.lt_of_lt_of_le (h.routes i j hr) hx.length_le
  · rw [hs.routes]
    exact h.distinct

/-- The source's step of one call, with what it does to the streams. -/
theorem Inv.continues (h : Inv k honest w) (hi : w.source.sessions[i]? = some session)
    (o : SourceController.Outcome) (hsource : w'.source = w.source.step k (.continues i o))
    (hnet : Net honest w') (hx : Ext w.streams w'.streams)
    (hothers : ∀ i', i' ≠ i → w'.routes i' = w.routes i' ∧
      Alone w.streams w'.streams (w.routes i'))
    (hroute : ∀ j, w'.routes i = some j → j < w'.streams.length ∧
      ∀ i', i' ≠ i → w.routes i' ≠ some j)
    (hcall : ∀ p, w'.source.phase? i = some p → Moves k session.phase o p →
      CallOK k honest w'.streams (w'.routes i) p) : Inv k honest w' := by
  have hstep : w.source.step k (.continues i o) = w.source.continues k i session o := by
    unfold SourceController.step
    dsimp only
    rw [hi]
  rw [hstep] at hsource
  obtain ⟨⟨session', hself, hmoves⟩, hsessions⟩ :=
    SourceController.continues_sets hi (h.calls i session hi).1 o
  rw [← hsource] at hself hsessions
  refine ⟨hnet, fun i' session'' hi' => ?_, fun i' j hr => ?_, fun i₁ i₂ j h₁ h₂ => ?_⟩
  · by_cases he : i' = i
    · subst he
      obtain rfl : session' = session'' := Option.some.inj (hself.symm.trans hi')
      refine ⟨hmoves.decoded (h.calls i' session hi).1, hcall _ ?_ hmoves⟩
      unfold SourceController.phase?
      rw [hself]
      rfl
    · rw [hsessions i' he] at hi'
      obtain ⟨hr, halone⟩ := hothers i' he
      obtain ⟨hd, hc⟩ := h.calls i' session'' hi'
      exact ⟨hd, by rw [hr]; exact hc.later hx halone⟩
  · by_cases he : i' = i
    · subst he
      exact (hroute j hr).1
    · rw [(hothers i' he).1] at hr
      exact Nat.lt_of_lt_of_le (h.routes i' j hr) hx.length_le
  · by_cases he₁ : i₁ = i
    · subst he₁
      by_contra hne
      rw [(hothers i₂ (Ne.symm hne)).1] at h₂
      exact (hroute j h₁).2 i₂ (Ne.symm hne) h₂
    · by_cases he₂ : i₂ = i
      · subst he₂
        rw [(hothers i₁ he₁).1] at h₁
        exact absurd h₁ ((hroute j h₂).2 i₁ he₁)
      · rw [(hothers i₁ he₁).1] at h₁
        rw [(hothers i₂ he₂).1] at h₂
        exact h.distinct i₁ i₂ j h₁ h₂

theorem Alone.refl (ss : List Stream) (route : Option Nat) : Alone ss ss route :=
  fun _ st _ hj => ⟨st, hj, .refl st⟩

theorem Inv.own (h : Inv k honest w) (hi : w.source.sessions[i]? = some session)
    (o : SourceController.Outcome)
    (hcall : ∀ p, Moves k session.phase o p → CallOK k honest w.streams (w.routes i) p) :
    Inv k honest { w with source := w.source.step k (.continues i o) } :=
  h.continues hi o rfl ⟨h.net.streams, h.net.pairs, h.net.circuits⟩ (Extends.refl Later.refl _)
    (fun _ _ => ⟨rfl, .refl _ _⟩)
    (fun j hj => ⟨h.routes i j hj, fun i' hne hi' => hne (h.distinct i' i j hi' hj)⟩)
    fun p _ hp => hcall p hp

theorem step_none (k : Suite) {s : SourceController} (hi : s.sessions[i]? = none) (o : SourceController.Outcome) :
    s.step k (.continues i o) = s := by
  unfold SourceController.step
  dsimp only
  rw [hi]

/-- A step of one call on its own: it ends, starts anew, or has its directory or its errors. -/
theorem Inv.continuesAlone (h : Inv k honest w) (i : Nat) (o : SourceController.Outcome)
    (ho : ∀ p p', Moves k p o p' → p' = p ∨ Restarts k p' ∨
      ∃ a b, p = .finishing a b ∧ p' = .opened a b) :
    Inv k honest { w with source := w.source.step k (.continues i o) } := by
  cases hi : w.source.sessions[i]? with
  | none =>
    rw [step_none k hi]
    exact h
  | some session =>
    refine h.own hi o fun p hp => ?_
    have hc := (h.calls i session hi).2
    rcases ho session.phase p hp with rfl | hr | ⟨a, b, he, rfl⟩
    · exact hc
    · exact .restarts hr
    · rw [he] at hc
      exact hc

theorem Inv.connect (h : Inv k honest w) (destination : Bytes) (useSpliced : Bool) :
    Inv k honest { w with source := w.source.connect destination useSpliced } := by
  refine ⟨⟨h.net.streams, h.net.pairs, h.net.circuits⟩, fun i session hi => ?_, h.routes, h.distinct⟩
  rcases getElem?_concat_iff.mp hi with hold | ⟨-, rfl⟩
  · exact h.calls i session hold
  · exact ⟨trivial, trivial⟩

theorem Inv.ownEvent (h : Inv k honest w) (e : World.Own) :
    Inv k honest { w with source := w.source.step k e.event } := by
  cases e with
  | connect destination useSpliced => exact h.connect destination useSpliced
  | discovered i relays now =>
    refine h.continuesAlone i _ fun p p' hp => ?_
    cases hp with
    | stays => exact .inl rfl
    | restarts p o hr => exact .inr (.inl hr)
  | notDialed i opened now =>
    refine h.continuesAlone i _ fun p p' hp => ?_
    cases opened with
    | false =>
      cases hp with
      | stays => exact .inl rfl
      | restarts p o hr => exact .inr (.inl hr)
    | true =>
      cases hp with
      | stays => exact .inl rfl
      | restarts p o hr => exact .inr (.inl hr)
  | notBuilt i =>
    refine h.continuesAlone i _ fun p p' hp => ?_
    cases hp with
    | stays => exact .inl rfl
    | restarts p o hr => exact .inr (.inl hr)
  | notResolved i =>
    refine h.continuesAlone i _ fun p p' hp => ?_
    cases hp with
    | stays => exact .inl rfl
    | restarts p o hr => exact .inr (.inl hr)
    | resolved b started now respond hapart hanswered =>
      obtain ⟨request, answer, ha⟩ := hanswered
      cases ha
  | notActivated i =>
    refine h.continuesAlone i _ fun p p' hp => ?_
    cases hp with
    | stays => exact .inl rfl
    | restarts p o hr => exact .inr (.inl hr)
  | finished i ok =>
    refine h.continuesAlone i _ fun p p' hp => ?_
    cases hp with
    | stays => exact .inl rfl
    | restarts p o hr => exact .inr (.inl hr)
    | finished a b => exact .inr (.inr ⟨a, b, rfl, rfl⟩)

/-! ## The source's steps on its streams -/

/-- What holds of a call that is about to send its `SOURCE_ACTIVATE`. -/
def Ready (k : Suite) (honest : Bytes → Bool) (ss : List Stream) (route : Option Nat) :
    Phase → Prop
  | .activating a b => Apart k a b ∧
    Circuit honest ss route b fun cs n => Inactive cs ∧ n = cs.length
  | p => CallOK k honest ss route p

theorem Ready.restarts {ss : List Stream} {route : Option Nat} {p : Phase} (h : Restarts k p) :
    Ready k honest ss route p := by
  cases p with
  | dialing a first second refused => exact h.1
  | discovering => trivial
  | failed => trivial
  | _ => exact h.elim

/-- The stream of a call after the source's end of it changed, and those of the other calls. -/
theorem Inv.others (h : Inv k honest w) {f : Stream → Stream} (hroute : w.routes i = some j)
    {i' : Nat} (hne : i' ≠ i) : Alone w.streams (w.streams.modify j f) (w.routes i') := by
  intro j' st' hj' hst'
  have hjj : j ≠ j' := by
    rintro rfl
    exact hne (h.distinct i' i j hj' hroute)
  exact ⟨st', (getElem?_modify_other hjj).trans hst', .refl st'⟩

theorem Inv.step_phase? (h : Inv k honest w) (hi : w.source.sessions[i]? = some session)
    (o : SourceController.Outcome) : ∃ p, (w.source.step k (.continues i o)).phase? i = some p ∧
      Moves k session.phase o p := by
  obtain ⟨⟨session', hself, hmoves⟩, -⟩ := SourceController.continues_sets hi (h.calls i session hi).1 o
  refine ⟨session'.phase, ?_, hmoves⟩
  unfold SourceController.step SourceController.phase?
  dsimp only
  rw [hi]
  dsimp only
  rw [hself]
  rfl

theorem Inv.sourceStep (h : Inv l.suite honest w) (hi : w.source.sessions[i]? = some session)
    (hroute : w.routes i = some j) (o : SourceController.Outcome)
    (hready : ∀ p, Moves l.suite session.phase o p →
      Ready l.suite honest w.streams (w.routes i) p) :
    Inv l.suite honest (w.sourceStep l i j o) := by
  obtain ⟨p, hp, hmoves⟩ := h.step_phase? hi o
  have hr := hready p hmoves
  have hdistinct (j : Nat) (hj : w.routes i = some j) :
      j < w.streams.length ∧ ∀ i', i' ≠ i → w.routes i' ≠ some j :=
    ⟨h.routes i j hj, fun i' hne hi' => hne (h.distinct i' i j hi' hj)⟩
  unfold World.sourceStep
  dsimp only
  rw [hp, Option.bind_some]
  have hquiet (hc : CallOK l.suite honest w.streams (w.routes i) p) :
      Inv l.suite honest { w with source := w.source.step l.suite (.continues i o) } := by
    refine h.continues hi o rfl ⟨h.net.streams, h.net.pairs, h.net.circuits⟩
      (Extends.refl Later.refl _) (fun _ _ => ⟨rfl, .refl _ _⟩) hdistinct fun p' hp' _ => ?_
    obtain rfl : p = p' := Option.some.inj (hp.symm.trans hp')
    exact hc
  cases p with
  | activating a b =>
    obtain ⟨hapart, hkeys, ⟨j', st, hj', hj, hrole, hserver, hdigest, hinactive, htaken⟩, hbuilds⟩ := hr
    obtain rfl : j = j' := Option.some.inj (hroute.symm.trans hj')
    obtain ⟨d, hd⟩ := hapart.known
    rw [show World.activationOf (.activating a b) =
      some (.activate d.wire b.firstDiversity b.secondDiversity) from by
        unfold World.activationOf
        dsimp only
        rw [hd]
        rfl]
    dsimp only
    have hnet : Net honest { w with source := w.source.step l.suite (.continues i o) } :=
      ⟨h.net.streams, h.net.pairs, h.net.circuits⟩
    have hx := Ext.modifyAt (f := fun st => { st with
      commands := st.commands.push (.activate d.wire b.firstDiversity b.secondDiversity) }) hj
      (.cells st _ _)
    refine h.continues hi o rfl (hnet.sourceEnd hj hrole (List.prefix_append _ _) rfl rfl) hx
      (fun i' hne => ⟨rfl, h.others hroute hne⟩) (fun j hj => ?_) fun p' hp' _ => ?_
    · refine ⟨?_, (hdistinct j hj).2⟩
      show j < (w.streams.modify _ _).length
      rw [List.length_modify]
      exact (hdistinct j hj).1
    · obtain rfl : .activating a b = p' := Option.some.inj (hp.symm.trans hp')
      refine ⟨hapart, hkeys, ⟨j, _, hroute, getElem?_modify_self hj, hrole, hserver, hdigest,
        st.commands.sent, d, hd, hinactive, rfl, htaken⟩, fun hh j hj => (hbuilds hh j hj).ext hx⟩
  | _ => exact hquiet hr

theorem Inv.sourceEnd (h : Inv k honest w) (hi : w.source.sessions[i]? = some session)
    (hroute : w.routes i = some j) (hj : w.streams[j]? = some st) {second : Bytes}
    (hr : st.role = .source second) {cf : Stream → Channel Command} {rf : Stream → Channel Bytes}
    (hasked : st.commands.sent <+: (cf st).sent) (htaken : (cf st).taken = st.commands.taken)
    (hreplies : (rf st).sent = st.replies.sent)
    (hcall : CallOK k honest (w.modify j fun st => { st with
      commands := cf st, replies := rf st }).streams (w.routes i) session.phase) :
    Inv k honest (w.modify j fun st => { st with commands := cf st, replies := rf st }) := by
  have hx := Ext.modifyAt (f := fun st => { st with commands := cf st, replies := rf st }) hj
    (.cells st _ _)
  refine ⟨h.net.sourceEnd hj hr hasked htaken hreplies, fun i' session' hi' => ?_,
    fun i j hr => Nat.lt_of_lt_of_le (h.routes i j hr) hx.length_le, h.distinct⟩
  by_cases he : i' = i
  · subst he
    obtain rfl : session = session' := Option.some.inj (hi.symm.trans hi')
    exact ⟨(h.calls i' session hi).1, hcall⟩
  · obtain ⟨hd, hc⟩ := h.calls i' session' hi'
    exact ⟨hd, hc.later hx (h.others hroute he)⟩

theorem sessions_of_phase? {s : SourceController} {p : Phase} (h : s.phase? i = some p) :
    ∃ session, s.sessions[i]? = some session ∧ session.phase = p :=
  Option.map_eq_some_iff.mp h

theorem Inv.sourceDialed (h : Inv l.suite honest w) (i : Nat) {client : Bytes}
    (hclient : honest client = false) (near far : Endpoint) (now : Nat) :
    Inv l.suite honest (w.sourceDialed l i client near far now) := by
  unfold World.sourceDialed
  split
  · next a first second hphase =>
    obtain ⟨session, hi, hp⟩ := sessions_of_phase? hphase
    obtain ⟨hd, hc⟩ := h.calls i session hi
    rw [hp] at hd hc
    split
    · refine h.continuesAlone i _ fun p p' hm => ?_
      cases hm with
      | stays => exact .inl rfl
      | restarts p o hr => exact .inr (.inl hr)
    · next digest clientEnd hobserved =>
      have hnet := (h.net.append (.source second) first clientEnd { far with observed := none }
        [.buildSource second] hclient (fun _ _ he => by cases he)
        fun m hm => List.mem_singleton.mp hm).net
      have hx := Ext.append w.streams [World.newStream (.source second) client first clientEnd
        { far with observed := none } [.buildSource second]]
      refine h.continues hi _ rfl ⟨hnet.streams, hnet.pairs, hnet.circuits⟩ hx
        (fun i' hne => ⟨Function.update_of_ne hne _ _, ?_⟩) (fun j hj => ?_) fun p _ hm => ?_
      · exact fun j st _ hj => Extends.append Silent.refl _ _ j st hj
      · obtain rfl : w.streams.length = j :=
          Option.some.inj ((Function.update_self i _ w.routes).symm.trans hj)
        refine ⟨?_, fun i' _ hi' => Nat.lt_irrefl _ (h.routes i' _ hi')⟩
        show _ < (w.streams ++ [_]).length
        rw [List.length_append]
        exact Nat.lt_succ_self _
      · rw [hp] at hm
        cases hm with
        | stays hwaits => cases hwaits
        | restarts p o hr => exact .restarts hr
        | dialed first second digest now ha =>
          exact ⟨hc, w.streams.length, _, Function.update_self i _ w.routes,
            getElem?_concat_iff.mpr (.inr ⟨rfl, rfl⟩), rfl, rfl,
            (Endpoint.digest_spec hobserved).1, rfl, rfl⟩
  · exact h

theorem Inv.sourceBuilt (h : Inv l.suite honest w) (i : Nat) :
    Inv l.suite honest (w.sourceBuilt l i) := by
  unfold World.sourceBuilt
  split
  · next a first second firstDiversity j hphase hroute =>
    obtain ⟨session, hi, hp⟩ := sessions_of_phase? hphase
    have hc := (h.calls i session hi).2
    rw [hp] at hc
    obtain ⟨hkeys, j', st', hj', hst', hrole, hserver, hdigest, hcs, hn⟩ := hc
    obtain rfl : j = j' := Option.some.inj (hroute.symm.trans hj')
    split
    · exact h
    · next st hj =>
      obtain rfl : st = st' := Option.some.inj (hj.symm.trans hst')
      split
      · exact h
      · next digest hm =>
        have hreads : Sound honest w
            (w.modify j fun st => { st with toClient := st.toClient.take }) :=
          h.net.control hj ⟨rfl, rfl, rfl, .refl _, .refl _, fun _ h => h⟩ rfl rfl rfl
            (fun _ hm => .inl hm) (fun _ hm => .inl hm) (.inl rfl)
        have hbuilds : honest first = true → ∀ j', w.routes i = some j' →
            Builds (w.modify j fun st => { st with toClient := st.toClient.take }).streams j'
              digest := by
          intro hh j' hj'
          obtain rfl : j = j' := Option.some.inj (hroute.symm.trans hj')
          exact Builds.ext (hreads.streams.mono fun _ _ hs => hs.later)
            ((h.net.streams j st hj).answers (hserver ▸ hh) _ (Channel.mem_of_next hm))
        refine (h.sound hreads).sourceStep hi hroute _ fun p hm => ?_
        rw [hp] at hm
        cases hm with
        | stays hwaits => cases hwaits
        | restarts p o hr => exact .restarts hr
        | resolves b ha hdiverse =>
          refine ⟨hkeys, ⟨j, _, hroute, getElem?_modify_self hj, hrole, hserver, hdigest, ?_⟩, hbuilds⟩
          dsimp only
          rw [hcs]
          exact Inactive.nil
        | apart b hapart hdiverse =>
          refine ⟨hapart, hkeys, ⟨j, _, hroute, getElem?_modify_self hj, hrole, hserver, hdigest, ?_⟩,
            hbuilds⟩
          dsimp only
          rw [hcs, hn]
          exact ⟨Inactive.nil, rfl⟩
      · next m hm =>
        refine h.sourceStep hi hroute _ fun p hm => ?_
        rw [hp] at hm
        cases hm with
        | stays hwaits => cases hwaits
        | restarts p o hr => exact .restarts hr
  · exact h

theorem Inv.resolving (h : Inv k honest w) {a : Attempt} {b : Build}
    (hphase : w.source.phase? i = some (.resolving a b)) (hroute : w.routes i = some j)
    (hj : w.streams[j]? = some st) :
    ∃ session, w.source.sessions[i]? = some session ∧ session.phase = .resolving a b ∧
      b.firstSafetyRelay ≠ b.secondSafetyRelay ∧ st.role = .source b.secondSafetyRelay ∧
      st.server = b.firstSafetyRelay ∧ st.clientEnd.digest? = some b.firstDiversity ∧
      Inactive st.commands.sent ∧
      (honest b.firstSafetyRelay = true → Builds w.streams j b.secondDiversity) := by
  obtain ⟨session, hi, hp⟩ := sessions_of_phase? hphase
  have hc := (h.calls i session hi).2
  rw [hp] at hc
  obtain ⟨hkeys, ⟨j', st', hj', hst', hrole, hserver, hdigest, hinactive⟩, hbuilds⟩ := hc
  obtain rfl : j = j' := Option.some.inj (hroute.symm.trans hj')
  obtain rfl : st = st' := Option.some.inj (hj.symm.trans hst')
  exact ⟨session, hi, hp, hkeys, hrole, hserver, hdigest, hinactive, fun hh => hbuilds hh j hroute⟩

theorem Inv.sourceAsks (h : Inv k honest w) (i : Nat) : Inv k honest (w.sourceAsks i) := by
  unfold World.sourceAsks
  split
  · next a b j hphase hroute =>
    split
    · exact h
    · next st hj =>
      obtain ⟨session, hi, hp, hkeys, hrole, hserver, hdigest, hinactive, hbuilds⟩ :=
        h.resolving hphase hroute hj
      split
      · refine h.sourceEnd hi hroute hj hrole (List.prefix_append _ _) rfl rfl ?_
        rw [hp]
        refine ⟨hkeys, ⟨j, _, hroute, getElem?_modify_self hj, hrole, hserver, hdigest, ?_⟩, ?_⟩
        · intro wire first second hc
          rcases Channel.mem_push.mp hc with hold | he
          · exact hinactive wire first second hold
          · cases he
        · intro hh j' hj'
          obtain rfl : j = j' := Option.some.inj (hroute.symm.trans hj')
          exact (hbuilds hh).ext (Ext.modifyAt hj (.cells st _ _))
      · exact h
  · exact h

theorem Inv.sourceAnswered (h : Inv k honest w) (i : Nat) :
    Inv k honest (w.sourceAnswered i) := by
  unfold World.sourceAnswered
  split
  · next a b j hphase hroute =>
    split
    · exact h
    · next st hj =>
      obtain ⟨session, hi, hp, hkeys, hrole, hserver, hdigest, hinactive, hbuilds⟩ :=
        h.resolving hphase hroute hj
      split
      · refine h.sourceEnd hi hroute hj hrole List.prefix_rfl rfl rfl ?_
        rw [hp]
        refine ⟨hkeys, ⟨j, _, hroute, getElem?_modify_self hj, hrole, hserver, hdigest,
          hinactive⟩, ?_⟩
        intro hh j' hj'
        obtain rfl : j = j' := Option.some.inj (hroute.symm.trans hj')
        exact (hbuilds hh).ext (Ext.modifyAt hj (.cells st _ _))
      · exact h
  · exact h

theorem Inv.sourceResolved (h : Inv l.suite honest w) (i started : Nat)
    (respond : Bytes → Option (Nat × Bytes)) (now : Nat) :
    Inv l.suite honest (w.sourceResolved l i started respond now) := by
  unfold World.sourceResolved
  split
  · next a b j hphase hroute =>
    split
    · exact h
    · next st hj =>
      obtain ⟨session, hi, hp, hkeys, hrole, hserver, hdigest, hinactive, hbuilds⟩ :=
        h.resolving hphase hroute hj
      split
      · next hdone =>
        refine h.sourceStep hi hroute _ fun p hm => ?_
        rw [hp] at hm
        cases hm with
        | stays hwaits => cases hwaits
        | restarts p o hr => exact .restarts hr
        | resolved b started now respond hapart hanswered =>
          refine ⟨hapart, hkeys, ⟨j, st, hroute, hj, hrole, hserver, hdigest, hinactive,
            hdone.symm⟩, fun hh j' hj' => ?_⟩
          obtain rfl : j = j' := Option.some.inj (hroute.symm.trans hj')
          exact hbuilds hh
      · exact h
  · exact h

theorem requireDiverse_nodup {values : List Bytes} (h : requireDiverse values = true) :
    values.Nodup := by
  unfold requireDiverse at h
  rw [Bool.and_eq_true] at h
  exact of_decide_eq_true h.2

theorem Inv.sourceActivated (h : Inv l.suite honest w) (i : Nat) :
    Inv l.suite honest (w.sourceActivated l i) := by
  unfold World.sourceActivated
  split
  · next a b j hphase hroute =>
    obtain ⟨session, hi, hp⟩ := sessions_of_phase? hphase
    have hc := (h.calls i session hi).2
    rw [hp] at hc
    obtain ⟨hapart, hkeys, ⟨j', st', hj', hst', hrole, hserver, hdigest, cs, d, hd, hinactive, hcs,
      hn⟩, hbuilds⟩ := hc
    obtain rfl : j = j' := Option.some.inj (hroute.symm.trans hj')
    split
    · exact h
    · next st hj =>
      obtain rfl : st = st' := Option.some.inj (hj.symm.trans hst')
      split
      · exact h
      · next response hreply =>
        have hx := Ext.modifyAt (f := fun st => { st with replies := st.replies.take }) hj
          (.cells st _ _)
        have hnet := h.net.sourceEnd (f := fun st => st.commands)
          (g := fun st => st.replies.take) hj hrole List.prefix_rfl rfl rfl
        refine h.continues hi _ rfl ⟨hnet.streams, hnet.pairs, hnet.circuits⟩ hx
          (fun i' hne => ⟨rfl, h.others hroute hne⟩) (fun j' hj' => ⟨?_, fun i' hne hi' =>
            hne (h.distinct i' i j' hi' hj')⟩) fun p _ hm => ?_
        · exact Nat.lt_of_lt_of_le (h.routes i j' hj') hx.length_le
        · rw [hp] at hm
          cases hm with
          | stays hwaits => cases hwaits
          | restarts p o hr => exact .restarts hr
          | activated b response hlength hok hdiverse =>
            refine ⟨d, _, _, hd, rfl, rfl, hapart.keys hd hkeys, requireDiverse_nodup hdiverse, ?_⟩
            refine Links.ext hx (h.net.links hj hrole hserver hdigest (fun hh => hbuilds hh j hroute)
              hinactive (hapart.decoded d hd).eq_fieldsOf hcs ?_)
            rw [← hn]
            exact hreply
  · exact h

/-! ## Runs -/

theorem Inv.step (h : Inv l.suite honest w) (e : World.Event) :
    Inv l.suite honest (w.step l honest e) := by
  cases e with
  | own e => exact h.ownEvent e
  | sourceDialed i client near far now =>
    unfold World.step
    dsimp only
    split
    · exact h
    · next hclient => exact h.sourceDialed i (Bool.eq_false_iff.mpr hclient) near far now
  | sourceBuilt i => exact h.sourceBuilt i
  | sourceAsks i => exact h.sourceAsks i
  | sourceAnswered i => exact h.sourceAnswered i
  | sourceResolved i started respond now => exact h.sourceResolved i started respond now
  | sourceActivated i => exact h.sourceActivated i
  | serve j now data =>
    unfold World.step
    dsimp only
    split
    · exact h.sound (h.net.serve j now data)
    · exact h
  | serveAnswer j => exact h.sound (h.net.serveAnswer j)
  | dialed j near far => exact h.sound (h.net.dialed j near far)
  | published j => exact h.sound (h.net.published j)
  | forward j back => exact h.sound (h.net.forward j back)
  | abort j => exact h.sound (h.net.abort j)
  | entryClosed relay token =>
    exact h.sound (h.net.withCircuits _ fun e he => h.net.circuits e (List.mem_filter.mp he).1)
  | moved j client host port => exact h.sound (h.net.moved j client host port)
  | openDestination client server near far =>
    unfold World.step
    dsimp only
    split
    · exact h
    · next hclient =>
      split
      · exact h
      · exact h.sound (h.net.append .destination server _ _ [] (Bool.eq_false_iff.mpr hclient)
          (fun _ _ he => by cases he) fun m hm => by cases hm)
  | openOther client server near far =>
    unfold World.step
    dsimp only
    split
    · exact h
    · next hclient =>
      exact h.sound (h.net.append .other server _ _ [] (Bool.eq_false_iff.mpr hclient)
        (fun _ _ he => by cases he) fun m hm => by cases hm)
  | destinationSends j m => exact h.sound (h.net.destinationSends j m)
  | inject j x => exact h.sound (h.net.inject j x)

theorem Inv.run (h : Inv l.suite honest w) (events : List World.Event) :
    Inv l.suite honest (events.foldl (World.step l honest) w) := by
  induction events generalizing w with
  | nil => exact h
  | cons e events ih => exact ih (h.step e)

theorem Inv.start {source : SourceController} (h : source.sessions = []) :
    Inv k honest (World.start source) := by
  refine ⟨⟨fun _ _ hj => (by cases hj), fun _ _ _ hj => (by cases hj), fun _ he => (by cases he)⟩,
    fun i session hi => ?_, fun _ _ hr => (by cases hr), fun _ _ _ hr => (by cases hr)⟩
  unfold World.start at hi
  dsimp only at hi
  rw [h] at hi
  cases hi

theorem Inv.done (h : Inv k honest w) {a : Attempt} {b : Build}
    (hp : w.source.phase? i = some (.finishing a b) ∨ w.source.phase? i = some (.opened a b)) :
    a.Decoded k ∧ Selected honest w.streams a b := by
  rcases hp with hp | hp
  · obtain ⟨session, hi, hphase⟩ := sessions_of_phase? hp
    have hc := h.calls i session hi
    rw [hphase] at hc
    exact hc
  · obtain ⟨session, hi, hphase⟩ := sessions_of_phase? hp
    have hc := h.calls i session hi
    rw [hphase] at hc
    exact hc

end Steps

/-- **The relays of a route are as diverse as they see each other.** In every run, a call whose
setup is done has four relays with four keys and four digests, and each digest is what the
neighbours of that relay observed of it, as far as the relays on the way run this code. -/
theorem routes_diverse (l : Primitives) (honest : Bytes → Bool) {source : SourceController}
    (hsource : source.sessions = []) (events : List World.Event) {i : Nat} {a : Attempt} {b : Build}
    (h : (World.run l honest source events).source.phase? i = some (.finishing a b) ∨
      (World.run l honest source events).source.phase? i = some (.opened a b)) :
    Selected honest (World.run l honest source events).streams a b :=
  (((Inv.start hsource).run events).done h).2

/-- The streams of a route, from the source to the entry and from the guard to it, with what their
ends observed: of each relay, the same on both sides. The party that registered the route at the
guard is the last observer, where it is a destination that runs this code. -/
def Agreed (ss : List Stream) (b : Build) (d : Descriptor) (guard entry : Bytes) : Prop :=
  ∃ (ja jb jh : Nat) (sa sb sc sd sh : Stream), ss[ja]? = some sa ∧ ss[jb]? = some sb ∧ sc ∈ ss ∧
    sd ∈ ss ∧ ss[jh]? = some sh ∧
    (sa.role = .source b.secondSafetyRelay ∧ sa.server = b.firstSafetyRelay) ∧
    (sb.role = .relay ja .extendSource ∧ sb.client = b.firstSafetyRelay ∧
      sb.server = b.secondSafetyRelay) ∧
    (sc.role = .relay jb (.entryActivate d.wire b.firstDiversity b.secondDiversity) ∧
      sc.client = b.secondSafetyRelay ∧ sc.server = d.entryRelayPublicKey) ∧
    (sd.role = .relay jh (.entryRegister d.wire guard entry) ∧
      sd.client = d.destinationGuardPublicKey ∧ sd.server = d.entryRelayPublicKey) ∧
    sh.server = d.destinationGuardPublicKey ∧
    (sa.clientEnd.digest? = some b.firstDiversity ∧ sb.serverEnd.digest? = some b.firstDiversity) ∧
    (sb.clientEnd.digest? = some b.secondDiversity ∧ sc.serverEnd.digest? = some b.secondDiversity) ∧
    (sc.clientEnd.digest? = some entry ∧ sd.clientEnd.digest? = some entry) ∧
    sd.serverEnd.digest? = some guard ∧ (sh.role = .destination → sh.clientEnd.digest? = some guard)

theorem Links.agreed {honest : Bytes → Bool} {ss : List Stream} {b : Build} {d : Descriptor}
    {guard entry : Bytes} (h : Links honest ss b d guard entry) (hd : d = fieldsOf d.wire)
    (hhonest : ∀ relay ∈ [b.firstSafetyRelay, b.secondSafetyRelay, d.entryRelayPublicKey,
      d.destinationGuardPublicKey], honest relay = true) : Agreed ss b d guard entry := by
  have hguard : guardKey d.wire = d.destinationGuardPublicKey := congrArg _ hd.symm
  obtain ⟨ja, sa, ha, hrole, hserver, hdigest, hfirst⟩ := h
  obtain ⟨jb, sb, hb, hroleb, hclientb, hserverb, hdigestb, hsecond⟩ := hfirst (hhonest _ (by simp))
  obtain ⟨hback, jc, sc, hc, hrolec, hclientc, hserverc, hdigestc, hentry⟩ :=
    hsecond (hhonest _ (by simp))
  obtain ⟨hbackc, jd, sd, hsd, hserverd, hclientd, hdigestd, hregistered⟩ :=
    hentry (hhonest _ (by simp))
  obtain ⟨jh, sh, hsh, hroled, hserverh, hbackd, hdestination⟩ :=
    hregistered (hguard ▸ hhonest _ (by simp))
  exact ⟨ja, jb, jh, sa, sb, sc, sd, sh, ha, hb, List.mem_of_getElem? hc, List.mem_of_getElem? hsd, hsh,
    ⟨hrole, hserver⟩, ⟨hroleb, hclientb, hserverb⟩, ⟨hrolec, hclientc, hserverc⟩,
    ⟨hroled, hclientd.trans hguard, hserverd⟩, hserverh.trans hguard, ⟨hdigest, hback⟩,
    ⟨hdigestb, hbackc⟩, ⟨hdigestc, hbackd⟩, hdigestd, hdestination⟩

/-- **All observers agree on the diversity of a route.** When the source, the four relays and the
destination run this code, a call whose setup is done has four relays with four keys and four
digests, and each digest is what both neighbours of its relay observed. -/
theorem diversity_agreed (l : Primitives) (honest : Bytes → Bool) {source : SourceController}
    (hsource : source.sessions = []) (events : List World.Event) {i : Nat} {a : Attempt} {b : Build}
    (h : (World.run l honest source events).source.phase? i = some (.finishing a b) ∨
      (World.run l honest source events).source.phase? i = some (.opened a b))
    (hhonest : ∀ d, a.descriptor = some d → ∀ relay ∈ [b.firstSafetyRelay, b.secondSafetyRelay,
      d.entryRelayPublicKey, d.destinationGuardPublicKey], honest relay = true) :
    ∃ (d : Descriptor) (guard entry : Bytes), a.descriptor = some d ∧
      a.entryDiversity = some guard ∧ a.guardDiversity = some entry ∧
      [b.firstSafetyRelay, b.secondSafetyRelay, d.entryRelayPublicKey,
        d.destinationGuardPublicKey].Nodup ∧
      [b.firstDiversity, b.secondDiversity, guard, entry].Nodup ∧
      Agreed (World.run l honest source events).streams b d guard entry := by
  obtain ⟨hdecoded, d, guard, entry, hd, hguard, hentry, hkeys, hdigests, hlinks⟩ :=
    ((Inv.start hsource).run events).done h
  exact ⟨d, guard, entry, hd, hguard, hentry, hkeys, hdigests,
    hlinks.agreed (hdecoded d hd).eq_fieldsOf (hhonest d hd)⟩

/-! ## The setup of a route -/

/-- Signatures that verify, IPv4 addresses only, and a hash that keeps the end of its input. -/
def plain : Primitives where
  suite := ⟨fun _ _ _ => true, fun key _ => some key, id⟩
  isIP _ := 4
  generichash b := (List.replicate 32 0 ++ b).drop b.length
  admits _ _ _ _ := true

def keyOf (n : Nat) : Bytes := List.replicate 32 (UInt8.ofNat n)

def between (own remote : String) : Endpoint := ⟨own, remote, 49737, none⟩

/-- A descriptor of the destination 5 for the entry 3 and the guard 4. -/
def wireOf : Bytes :=
  descriptorVersion :: be64 0 ++ keyOf 5 ++ keyOf 3 ++ keyOf 4 ++ keyOf 8 ++ be64 0 ++ be64 600000 ++
    List.replicate 64 0

/-- A call over the relays 1 and 2 to the destination, which registers on the way. -/
def setup : List World.Event := [
  .own (.connect (keyOf 5) true),
  .own (.discovered 0 (some [keyOf 1, keyOf 2, keyOf 3, keyOf 4]) 0),
  .sourceDialed 0 (keyOf 9) (between "9.0.0.1" "1.0.0.1") (between "1.0.0.1" "9.0.0.1") 0,
  .serve 0 0 [],
  .dialed 0 (between "1.0.0.1" "2.0.0.1") (between "2.0.0.1" "1.0.0.1"),
  .serve 1 0 [],
  .serveAnswer 0,
  .sourceBuilt 0,
  .openDestination (keyOf 6) (keyOf 4) (between "6.0.0.1" "4.0.0.1") (between "4.0.0.1" "6.0.0.1"),
  .destinationSends 2 .buildDestination,
  .serve 2 0 [],
  .destinationSends 2 (.identity (be64 0 ++ keyOf 5)),
  .serve 2 0 [],
  .destinationSends 2 (.destination wireOf []),
  .serve 2 0 [],
  .dialed 2 (between "4.0.0.1" "3.0.0.1") (between "3.0.0.1" "4.0.0.1"),
  .serve 3 0 [],
  .serveAnswer 2,
  .published 2,
  .serve 3 0 [],
  .serveAnswer 2,
  .sourceAsks 0,
  .forward 0 false,
  .serve 1 0 (statusOk :: wireOf),
  .forward 0 true,
  .sourceAnswered 0,
  .sourceResolved 0 0 (fun _ => some (0, statusOk :: wireOf)) 0,
  .forward 0 false,
  .serve 1 0 [],
  .dialed 1 (between "2.0.0.1" "3.0.0.1") (between "3.0.0.1" "2.0.0.1"),
  .serve 4 0 [],
  .serveAnswer 1,
  .forward 0 true,
  .sourceActivated 0]

def isFinishing : Phase → Bool
  | .finishing _ _ => true
  | _ => false

theorem routes_diverse_setup :
    ∃ (w : World) (a : Attempt) (b : Build),
      w = World.run plain (fun key => key ∈ [keyOf 1, keyOf 2, keyOf 3, keyOf 4]) .fresh setup ∧
      w.source.phase? 0 = some (.finishing a b) ∧
      Selected (fun key => key ∈ [keyOf 1, keyOf 2, keyOf 3, keyOf 4]) w.streams a b := by
  have hdone : ((World.run plain (fun key => key ∈ [keyOf 1, keyOf 2, keyOf 3, keyOf 4]) .fresh
      setup).source.phase? 0).any isFinishing = true := by decide +kernel
  obtain ⟨p, hp, hfinishing⟩ := (Option.any_eq_true _ _).mp hdone
  cases p with
  | finishing a b => exact ⟨_, a, b, rfl, hp, routes_diverse plain _ rfl setup (.inl hp)⟩
  | _ => cases hfinishing

/-- A call whose setup is done, over relays that run this code. -/
def isAmong (honest : Bytes → Bool) : Phase → Bool
  | .finishing a b => a.descriptor.any fun d => [b.firstSafetyRelay, b.secondSafetyRelay,
      d.entryRelayPublicKey, d.destinationGuardPublicKey].all honest
  | _ => false

theorem diversity_agreed_setup :
    ∃ (w : World) (a : Attempt) (b : Build) (d : Descriptor) (guard entry : Bytes),
      w = World.run plain (fun key => key ∈ [keyOf 1, keyOf 2, keyOf 3, keyOf 4]) .fresh setup ∧
      w.source.phase? 0 = some (.finishing a b) ∧ a.descriptor = some d ∧
      [b.firstDiversity, b.secondDiversity, guard, entry].Nodup ∧ Agreed w.streams b d guard entry := by
  have hdone : ((World.run plain (fun key => key ∈ [keyOf 1, keyOf 2, keyOf 3, keyOf 4]) .fresh
      setup).source.phase? 0).any
        (isAmong fun key => key ∈ [keyOf 1, keyOf 2, keyOf 3, keyOf 4]) = true := by decide +kernel
  obtain ⟨p, hp, hamong⟩ := (Option.any_eq_true _ _).mp hdone
  cases p with
  | finishing a b =>
    have hhonest : ∀ d, a.descriptor = some d → ∀ relay ∈ [b.firstSafetyRelay, b.secondSafetyRelay,
        d.entryRelayPublicKey, d.destinationGuardPublicKey],
        decide (relay ∈ [keyOf 1, keyOf 2, keyOf 3, keyOf 4]) = true := by
      intro d hd
      unfold isAmong at hamong
      dsimp only at hamong
      rw [hd] at hamong
      exact List.all_eq_true.mp hamong
    obtain ⟨d, guard, entry, hd, -, -, -, hdigests, hagreed⟩ :=
      diversity_agreed plain _ rfl setup (.inl hp) hhonest
    exact ⟨_, a, b, d, guard, entry, rfl, hp, hd, hdigests, hagreed⟩
  | _ => cases hamong

end HyperDht.Private.RouteNetwork
