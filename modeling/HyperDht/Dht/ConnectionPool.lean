import Mathlib.Logic.Function.Basic
import Mathlib.Order.Lattice
import Mathlib.Order.Nat
import Mathlib.Tactic.Common

/-!
# Connection pools

Two peers that dial and serve through a pool each. A pool holds at most one
stream to the other peer; when a second one appears, both peers decide by their
keys which connection to keep, each at its own end and in its own order of
events. A connection is a number, and each peer has one stream of it.

`ConnectionRef` is left out: a pool stores the streams themselves. The handlers
of one `close` event run one after the other, with dials of the application
between them (`Step.callback`); otherwise an event of a peer is atomic.

The connection dialled by the peer with the smaller key is never given up
(`Crossed`), and its peer dials no other one: that is what makes the two ends
agree.
-/

namespace HyperDht.ConnectionPools

inductive Peer where
  | a
  | b
  deriving DecidableEq, Repr

namespace Peer

def other : Peer → Peer
  | a => b
  | b => a

@[simp] theorem other_other (p : Peer) : p.other.other = p := by cases p <;> rfl

@[simp] theorem other_ne (p : Peer) : p.other ≠ p := by cases p <;> decide

@[simp] theorem ne_other (p : Peer) : p ≠ p.other := by cases p <;> decide

theorem eq_other_of_ne {p q : Peer} (h : p ≠ q) : p = q.other := by
  cases p <;> cases q <;> first | rfl | exact absurd rfl h

end Peer

/-- One end of a connection. `attached` says that the pool's close handler is on
it, `deferred` are the streams that wait for its close, in order. -/
structure Stream where
  present : Bool
  opened : Bool
  destroyed : Bool
  closed : Bool
  attached : Bool
  deferred : List Nat
  deriving DecidableEq, Repr

/-- The end of a connection that is not there yet. -/
def Stream.absent : Stream := ⟨false, false, false, false, false, []⟩

/-- The two maps of a pool at the other peer's key, and the handlers of the
present close event that are still to run. -/
structure ConnectionPool where
  connecting : Option Nat
  connections : Option Nat
  queue : List Nat
  deriving DecidableEq, Repr

namespace ConnectionPool

def empty : ConnectionPool := ⟨none, none, []⟩

def get (pool : ConnectionPool) : Option Nat := pool.connections <|> pool.connecting

def has (pool : ConnectionPool) : Bool := pool.connections.isSome || pool.connecting.isSome

end ConnectionPool

structure Network where
  made : Nat
  dialer : Nat → Peer
  streams : Peer → Nat → Stream
  pools : Peer → ConnectionPool

namespace Network

def initial : Network := ⟨0, fun _ => .a, fun _ _ => .absent, fun _ => .empty⟩

def modifyStream (s : Network) (p : Peer) (c : Nat) (f : Stream → Stream) : Network :=
  { s with streams := fun q d => if q = p ∧ d = c then f (s.streams q d) else s.streams q d }

def modifyPool (s : Network) (p : Peer) (f : ConnectionPool → ConnectionPool) : Network :=
  { s with pools := fun q => if q = p then f (s.pools q) else s.pools q }

def isInitiator (s : Network) (p : Peer) (c : Nat) : Bool := s.dialer c = p

section

variable {K : Type} [LinearOrder K] (key : Peer → K)

def attachStream (s : Network) (p : Peer) (c : Nat) : Network :=
  match (s.pools p).get with
  | some existing =>
    if s.isInitiator p c = s.isInitiator p existing ∨ key p.other < key p then
      s.modifyStream p existing fun e => { e with
        destroyed := true
        deferred := e.deferred ++ [c] }
    else s.modifyStream p c fun e => { e with destroyed := true }
  | none =>
    (s.modifyStream p c fun e => { e with attached := true }).modifyPool p fun pool =>
      if (s.streams p c).opened then { pool with connections := some c }
      else { pool with connecting := some c }

/-- `connect` with a pool: a dial makes a new connection only where the pool has
none. -/
def connect (s : Network) (p : Peer) : Network :=
  if (s.pools p).has then s
  else
    ({ s with
        made := s.made + 1
        dialer := fun d => if d = s.made then p else s.dialer d }.modifyStream p s.made fun _ =>
      { Stream.absent with present := true }).attachStream key p s.made

/-- The server of the dialled peer emits `connection`. -/
def onconnection (s : Network) (c : Nat) : Network :=
  let p := (s.dialer c).other
  if c < s.made ∧ (s.streams p c).present = false ∧ (s.pools p).queue = [] then
    (s.modifyStream p c fun e => { e with
      present := true
      opened := true }).attachStream key p c
  else s

/-- The `open` event of a dialled stream. -/
def onopen (s : Network) (c : Nat) : Network :=
  let p := s.dialer c
  if (s.streams p c).attached ∧ (s.streams p c).opened = false ∧ (s.streams p c).closed = false ∧
      (s.pools p).queue = [] then
    (s.modifyStream p c fun e => { e with opened := true }).modifyPool p fun pool => { pool with
      connecting := none
      connections := some c }
  else s

/-- The other end learns of a destroyed one. -/
def propagate (s : Network) (p : Peer) (c : Nat) : Network :=
  if (s.streams p c).destroyed ∧ (s.streams p.other c).present then
    s.modifyStream p.other c fun e => { e with destroyed := true }
  else s

/-- The `close` event of a destroyed stream: the pool's own handler is the first;
those of the streams that wait for it are left to `callback`. -/
def onclose (s : Network) (p : Peer) (c : Nat) : Network :=
  let e := s.streams p c
  if e.present ∧ e.destroyed ∧ e.closed = false ∧ (s.pools p).queue = [] then
    (s.modifyStream p c fun e => { e with
        closed := true
        deferred := [] }).modifyPool p fun pool =>
      if e.attached then
        if e.opened then { pool with connections := none, queue := e.deferred }
        else { pool with connecting := none, queue := e.deferred }
      else { pool with queue := e.deferred }
  else s

/-- The next handler of a close event attaches the stream that waited, unless
that has closed itself. -/
def callback (s : Network) (p : Peer) : Network :=
  match (s.pools p).queue with
  | [] => s
  | c :: rest =>
    let s := s.modifyPool p fun pool => { pool with queue := rest }
    if (s.streams p c).closed then s else s.attachStream key p c

/-- The application destroys a stream, or the transport fails. -/
def release (s : Network) (p : Peer) (c : Nat) : Network :=
  if (s.streams p c).present then s.modifyStream p c fun e => { e with destroyed := true } else s

end

end Network

inductive Event where
  | connect (p : Peer)
  | connection (c : Nat)
  | opened (c : Nat)
  | propagate (p : Peer) (c : Nat)
  | close (p : Peer) (c : Nat)
  | callback (p : Peer)
  | release (p : Peer) (c : Nat)
  deriving DecidableEq, Repr

namespace Network

variable {K : Type} [LinearOrder K] (key : Peer → K)

def step (s : Network) : Event → Network
  | .connect p => s.connect key p
  | .connection c => s.onconnection key c
  | .opened c => s.onopen c
  | .propagate p c => s.propagate p c
  | .close p c => s.onclose p c
  | .callback p => s.callback key p
  | .release p c => s.release p c

def run (events : List Event) : Network := events.foldl (step key) initial

/-! ## One pool -/

/-- What holds of a peer's pool and streams at any time. -/
structure Tidy (s : Network) (p : Peer) : Prop where
  single : (s.pools p).connecting = none ∨ (s.pools p).connections = none
  connecting : ∀ {c}, (s.pools p).connecting = some c →
    (s.streams p c).attached = true ∧ (s.streams p c).opened = false ∧
      (s.streams p c).closed = false
  connections : ∀ {c}, (s.pools p).connections = some c →
    (s.streams p c).attached = true ∧ (s.streams p c).opened = true ∧
      (s.streams p c).closed = false
  held : ∀ {c}, (s.streams p c).attached = true → (s.streams p c).closed = false →
    (s.pools p).get = some c
  here : ∀ {c}, (s.streams p c).attached = true → (s.streams p c).present = true
  ended : ∀ {c}, (s.streams p c).closed = true →
    (s.streams p c).present = true ∧ (s.streams p c).destroyed = true
  fresh : ∀ {c}, s.made ≤ c → s.streams p c = .absent
  waits : ∀ {c}, c ∈ (s.pools p).queue → (s.streams p c).present = true
  defers : ∀ {e c}, c ∈ (s.streams p e).deferred → (s.streams p c).present = true

theorem tidy_initial (p : Peer) : initial.Tidy p := by
  constructor <;> simp [initial, ConnectionPool.empty, Stream.absent]

section

variable {s : Network} {p q : Peer} {c d : Nat}

theorem streams_modifyStream_of_ne {f : Stream → Stream} (h : q ≠ p ∨ d ≠ c) :
    (s.modifyStream p c f).streams q d = s.streams q d := by
  refine if_neg ?_
  rintro ⟨rfl, rfl⟩
  rcases h with h | h <;> exact h rfl

@[simp] theorem streams_modifyStream_self {f : Stream → Stream} :
    (s.modifyStream p c f).streams p c = f (s.streams p c) := if_pos ⟨rfl, rfl⟩

@[simp] theorem pools_modifyPool_self {f : ConnectionPool → ConnectionPool} :
    (s.modifyPool p f).pools p = f (s.pools p) := if_pos rfl

theorem pools_modifyPool_of_ne {f : ConnectionPool → ConnectionPool} (h : q ≠ p) :
    (s.modifyPool p f).pools q = s.pools q := if_neg h

@[simp] theorem pools_modifyStream {f : Stream → Stream} :
    (s.modifyStream p c f).pools = s.pools := rfl

@[simp] theorem streams_modifyPool {f : ConnectionPool → ConnectionPool} :
    (s.modifyPool p f).streams = s.streams := rfl

theorem field_modifyStream {α : Type} (g : Stream → α) {f : Stream → Stream}
    (h : g (f (s.streams p c)) = g (s.streams p c)) (q : Peer) (d : Nat) :
    g ((s.modifyStream p c f).streams q d) = g (s.streams q d) := by
  by_cases hqd : q = p ∧ d = c
  · obtain ⟨rfl, rfl⟩ := hqd
    rw [streams_modifyStream_self, h]
  · rw [streams_modifyStream_of_ne]
    by_contra hn
    exact hqd (by simpa using hn)

theorem get_eq_none {pool : ConnectionPool} (hg : pool.get = none) :
    pool.connecting = none ∧ pool.connections = none := by
  unfold ConnectionPool.get at hg
  cases hc : pool.connections with
  | none => simpa [hc] using hg
  | some c => simp [hc] at hg

theorem get_eq_some {pool : ConnectionPool} (h : pool.get = some c) :
    pool.connections = some c ∨ pool.connecting = some c := by
  unfold ConnectionPool.get at h
  cases hc : pool.connections with
  | none =>
    rw [hc] at h
    exact .inr h
  | some d =>
    rw [hc] at h
    exact .inl h

theorem has_iff {pool : ConnectionPool} : pool.has = true ↔ pool.get ≠ none := by
  unfold ConnectionPool.has ConnectionPool.get
  cases pool.connections <;> cases pool.connecting <;> simp

theorem Tidy.of_get (h : s.Tidy p) (hg : (s.pools p).get = some c) :
    (s.streams p c).attached = true ∧ (s.streams p c).closed = false := by
  rcases get_eq_some hg with hc | hc
  · exact ⟨(h.connections hc).1, (h.connections hc).2.2⟩
  · exact ⟨(h.connecting hc).1, (h.connecting hc).2.2⟩

theorem Tidy.lt_made (h : s.Tidy p) (hc : (s.streams p c).present = true) : c < s.made := by
  by_contra hn
  rw [h.fresh (not_lt.mp hn)] at hc
  cases hc

theorem Tidy.destroy (h : s.Tidy q) {f : Stream → Stream} (hc : (s.streams p c).present = true)
    (hf : ∀ e, (f e).present = e.present ∧ (f e).opened = e.opened ∧ (f e).destroyed = true ∧
      (f e).closed = e.closed ∧ (f e).attached = e.attached)
    (hd : ∀ d ∈ (f (s.streams p c)).deferred, d ∈ (s.streams p c).deferred ∨
      (s.streams p d).present = true) : (s.modifyStream p c f).Tidy q := by
  have hpresent := field_modifyStream (s := s) (p := p) (c := c) (f := f) Stream.present (hf _).1 q
  have hopened := field_modifyStream (s := s) (p := p) (c := c) (f := f) Stream.opened
    (hf _).2.1 q
  have hclosed := field_modifyStream (s := s) (p := p) (c := c) (f := f) Stream.closed
    (hf _).2.2.2.1 q
  have hattached := field_modifyStream (s := s) (p := p) (c := c) (f := f) Stream.attached
    (hf _).2.2.2.2 q
  refine ⟨h.single, fun hg => ?_, fun hg => ?_, fun ha hn => ?_, fun ha => ?_, fun {d} hn => ?_,
    fun {d} hd => ?_, fun hw => ?_, fun {e d} hw => ?_⟩
  · rw [hattached, hopened, hclosed]
    exact h.connecting hg
  · rw [hattached, hopened, hclosed]
    exact h.connections hg
  · rw [hattached] at ha
    rw [hclosed] at hn
    exact h.held ha hn
  · rw [hattached] at ha
    rw [hpresent]
    exact h.here ha
  · rw [hclosed] at hn
    refine ⟨by rw [hpresent]; exact (h.ended hn).1, ?_⟩
    by_cases he : q = p ∧ d = c
    · obtain ⟨rfl, rfl⟩ := he
      rw [streams_modifyStream_self]
      exact (hf _).2.2.1
    · rw [streams_modifyStream_of_ne (by tauto)]
      exact (h.ended hn).2
  · rw [streams_modifyStream_of_ne]
    · exact h.fresh hd
    · by_contra hn
      obtain ⟨rfl, rfl⟩ : q = p ∧ d = c := by simpa using hn
      rw [h.fresh hd] at hc
      cases hc
  · rw [hpresent]
    exact h.waits hw
  · rw [hpresent]
    by_cases he : q = p ∧ e = c
    · obtain ⟨rfl, rfl⟩ := he
      rw [streams_modifyStream_self] at hw
      exact (hd d hw).elim (fun hw => h.defers hw) id
    · rw [streams_modifyStream_of_ne (by tauto)] at hw
      exact h.defers hw

theorem Tidy.of_same {s' : Network} (h : s.Tidy q) (hpool : s'.pools q = s.pools q)
    (hstreams : s'.streams q = s.streams q) (hmade : s.made ≤ s'.made) : s'.Tidy q := by
  refine ⟨?_, ?_, ?_, ?_, ?_, ?_, ?_, ?_, ?_⟩ <;> simp only [hpool, hstreams]
  · exact h.single
  · exact h.connecting
  · exact h.connections
  · exact h.held
  · exact h.here
  · exact h.ended
  · exact fun hc => h.fresh (hmade.trans hc)
  · exact h.waits
  · exact h.defers

/-- A stream enters an empty pool. -/
def register (s : Network) (p : Peer) (c : Nat) : Network :=
  (s.modifyStream p c fun e => { e with attached := true }).modifyPool p fun pool =>
    if (s.streams p c).opened then { pool with connections := some c }
    else { pool with connecting := some c }

theorem streams_of_ne_peer {f : Stream → Stream} (h : q ≠ p) :
    (s.modifyStream p c f).streams q = s.streams q := by
  funext d
  exact streams_modifyStream_of_ne (.inl h)

theorem streams_register : (s.register p c).streams =
    (s.modifyStream p c fun e => { e with attached := true }).streams := rfl

theorem get_register (hg : (s.pools p).get = none) : ((s.register p c).pools p).get = some c := by
  obtain ⟨h1, h2⟩ := get_eq_none hg
  unfold register
  rw [pools_modifyPool_self]
  split <;> simp [ConnectionPool.get, h1, h2]

theorem Tidy.register (h : s.Tidy q) (hg : (s.pools p).get = none)
    (hc : (s.streams p c).present = true) (hn : (s.streams p c).closed = false) :
    (s.register p c).Tidy q := by
  by_cases hq : q = p
  · subst hq
    obtain ⟨h1, h2⟩ := get_eq_none hg
    -- nothing else is attached and live in an empty pool
    have hnone : ∀ {d}, (s.streams q d).attached = true → (s.streams q d).closed = true := by
      intro d ha
      cases hd : (s.streams q d).closed with
      | true => rfl
      | false =>
        have := h.held ha hd
        rw [hg] at this
        cases this
    have hself : (s.register q c).streams q c = { s.streams q c with attached := true } := by
      rw [streams_register, streams_modifyStream_self]
    have hother : ∀ {d}, d ≠ c → (s.register q c).streams q d = s.streams q d := by
      intro d hd
      rw [streams_register, streams_modifyStream_of_ne (.inr hd)]
    have hpresent : ∀ d, ((s.register q c).streams q d).present = (s.streams q d).present := by
      intro d
      rw [streams_register, field_modifyStream Stream.present]
      rfl
    have hpool : (s.register q c).pools q = if (s.streams q c).opened then
        { s.pools q with connections := some c } else { s.pools q with connecting := some c } :=
      pools_modifyPool_self
    refine ⟨?_, fun {d} hd => ?_, fun {d} hd => ?_, fun {d} ha hd => ?_, fun {d} ha => ?_,
      fun {d} hd => ?_, fun {d} hd => ?_, fun {d} hw => ?_, fun {e d} hw => ?_⟩
    · rw [hpool]
      split
      · exact .inl h1
      · exact .inr h2
    · rw [hpool] at hd
      split at hd
      · simp [h1] at hd
      · next ho =>
        obtain rfl := Option.some.inj hd
        rw [hself]
        exact ⟨rfl, by simpa using ho, hn⟩
    · rw [hpool] at hd
      split at hd
      · next ho =>
        obtain rfl := Option.some.inj hd
        rw [hself]
        exact ⟨rfl, ho, hn⟩
      · simp [h2] at hd
    · by_cases hdc : d = c
      · subst hdc
        exact get_register hg
      · rw [hother hdc] at ha hd
        simp [hnone ha] at hd
    · rw [hpresent]
      by_cases hdc : d = c
      · exact hdc ▸ hc
      · rw [hother hdc] at ha
        exact h.here ha
    · by_cases hdc : d = c
      · subst hdc
        rw [hself] at hd
        simp [hn] at hd
      · rw [hother hdc] at hd ⊢
        exact h.ended hd
    · have hdc : d ≠ c := by
        rintro rfl
        exact absurd (h.lt_made hc) (not_lt.mpr hd)
      rw [hother hdc]
      exact h.fresh hd
    · rw [hpresent]
      rw [hpool] at hw
      split at hw <;> exact h.waits hw
    · rw [hpresent]
      by_cases hec : e = c
      · subst hec
        rw [hself] at hw
        exact h.defers hw
      · rw [hother hec] at hw
        exact h.defers hw
  · refine h.of_same (pools_modifyPool_of_ne hq) ?_ le_rfl
    rw [streams_register, streams_of_ne_peer hq]

theorem Tidy.attachStream (h : s.Tidy q) (hp : s.Tidy p) (hc : (s.streams p c).present = true)
    (hn : (s.streams p c).closed = false) : (s.attachStream key p c).Tidy q := by
  unfold Network.attachStream
  cases hg : (s.pools p).get with
  | none => exact h.register hg hc hn
  | some e =>
    dsimp only
    split
    · refine h.destroy (hp.here (hp.of_get hg).1) (fun _ => ⟨rfl, rfl, rfl, rfl, rfl⟩) ?_
      intro d hd
      rcases List.mem_append.mp hd with hd | hd
      · exact .inl hd
      · obtain rfl := List.mem_singleton.mp hd
        exact .inr hc
    · exact h.destroy hc (fun _ => ⟨rfl, rfl, rfl, rfl, rfl⟩) fun d hd => .inl hd

theorem Tidy.appear (h : s.Tidy q) (hc : c < s.made)
    (hp : (s.streams p c).present = false) (ha : (s.streams p c).attached = false)
    {f : Stream → Stream} (hf : (f (s.streams p c)).present = true ∧
      (f (s.streams p c)).destroyed = (s.streams p c).destroyed ∧
      (f (s.streams p c)).closed = (s.streams p c).closed ∧
      (f (s.streams p c)).attached = (s.streams p c).attached ∧
      (f (s.streams p c)).deferred = (s.streams p c).deferred) :
    (s.modifyStream p c f).Tidy q := by
  have hdestroyed := field_modifyStream (s := s) (p := p) (c := c) (f := f) Stream.destroyed
    hf.2.1 q
  have hclosed := field_modifyStream (s := s) (p := p) (c := c) (f := f) Stream.closed
    hf.2.2.1 q
  have hattached := field_modifyStream (s := s) (p := p) (c := c) (f := f) Stream.attached
    hf.2.2.2.1 q
  have hdeferred := field_modifyStream (s := s) (p := p) (c := c) (f := f) Stream.deferred
    hf.2.2.2.2 q
  have hpresent : ∀ d, (s.streams q d).present = true →
      ((s.modifyStream p c f).streams q d).present = true := by
    intro d hd
    by_cases he : q = p ∧ d = c
    · obtain ⟨rfl, rfl⟩ := he
      rw [streams_modifyStream_self]
      exact hf.1
    · rw [streams_modifyStream_of_ne (by tauto)]
      exact hd
  -- the stream itself is in no pool yet
  have hopened : ∀ d, (s.streams q d).attached = true →
      ((s.modifyStream p c f).streams q d).opened = (s.streams q d).opened := by
    intro d hd
    rw [streams_modifyStream_of_ne]
    by_contra hn
    obtain ⟨rfl, rfl⟩ : q = p ∧ d = c := by simpa using hn
    simp [ha] at hd
  refine ⟨h.single, fun hg => ?_, fun hg => ?_, fun ha hn => ?_, fun ha => ?_, fun hn => ?_,
    fun {d} hd => ?_, fun hw => hpresent _ (h.waits hw), fun hw => ?_⟩
  · rw [hattached, hclosed, hopened _ (h.connecting hg).1]
    exact h.connecting hg
  · rw [hattached, hclosed, hopened _ (h.connections hg).1]
    exact h.connections hg
  · rw [hattached] at ha
    rw [hclosed] at hn
    exact h.held ha hn
  · rw [hattached] at ha
    exact hpresent _ (h.here ha)
  · rw [hclosed] at hn
    rw [hdestroyed]
    exact ⟨hpresent _ (h.ended hn).1, (h.ended hn).2⟩
  · have hdc : d ≠ c := by
      rintro rfl
      exact absurd hc (not_lt.mpr hd)
    rw [streams_modifyStream_of_ne (.inr hdc)]
    exact h.fresh hd
  · rw [hdeferred] at hw
    exact hpresent _ (h.defers hw)

def dialled (s : Network) (p : Peer) : Network :=
  { s with
    made := s.made + 1
    dialer := fun d => if d = s.made then p else s.dialer d }.modifyStream p s.made fun _ =>
      { Stream.absent with present := true }

theorem connect_eq (s : Network) (p : Peer) : s.connect key p =
    if (s.pools p).has then s else (s.dialled p).attachStream key p s.made := rfl

theorem streams_dialled_self : (s.dialled p).streams p s.made =
    { Stream.absent with present := true } := streams_modifyStream_self

theorem Tidy.dialled (h : s.Tidy q) (hp : s.Tidy p) : (s.dialled p).Tidy q := by
  have hs : (s.streams p s.made) = .absent := hp.fresh le_rfl
  have hmade : Tidy { s with
      made := s.made + 1
      dialer := fun d => if d = s.made then p else s.dialer d } q :=
    h.of_same rfl rfl (Nat.le_succ _)
  refine hmade.appear (Nat.lt_succ_self _) ?_ ?_ ?_
  · exact congrArg Stream.present hs
  · exact congrArg Stream.attached hs
  · show _ ∧ _ = (s.streams p s.made).destroyed ∧ _ = (s.streams p s.made).closed ∧
      _ = (s.streams p s.made).attached ∧ _ = (s.streams p s.made).deferred
    rw [hs]
    exact ⟨rfl, rfl, rfl, rfl, rfl⟩

theorem Tidy.connect (h : ∀ q, s.Tidy q) (p q : Peer) : (s.connect key p).Tidy q := by
  rw [connect_eq]
  split
  · exact h q
  · refine ((h q).dialled (h p)).attachStream key ((h p).dialled (h p)) ?_ ?_ <;>
      rw [streams_dialled_self]
    rfl

theorem Tidy.attached_present (h : s.Tidy p) (hc : (s.streams p c).present = false) :
    (s.streams p c).attached = false := by
  cases ha : (s.streams p c).attached with
  | false => rfl
  | true => simp [h.here ha] at hc

def arrived (s : Network) (p : Peer) (c : Nat) : Network :=
  s.modifyStream p c fun e => { e with present := true, opened := true }

theorem Tidy.arrived (h : s.Tidy q) (hp : s.Tidy p) (hc : c < s.made)
    (hn : (s.streams p c).present = false) : (s.arrived p c).Tidy q :=
  h.appear hc hn (hp.attached_present hn) ⟨rfl, rfl, rfl, rfl, rfl⟩

theorem onconnection_eq (s : Network) (c : Nat) : s.onconnection key c =
    if c < s.made ∧ (s.streams (s.dialer c).other c).present = false ∧
        (s.pools (s.dialer c).other).queue = [] then
      (s.arrived (s.dialer c).other c).attachStream key (s.dialer c).other c
    else s := rfl

theorem Tidy.onconnection (h : ∀ q, s.Tidy q) (c : Nat) (q : Peer) :
    (s.onconnection key c).Tidy q := by
  rw [onconnection_eq]
  split
  · next hc =>
    obtain ⟨hlt, hn, -⟩ := hc
    set p := (s.dialer c).other
    have hclosed : (s.streams p c).closed = false := by
      cases hd : (s.streams p c).closed with
      | false => rfl
      | true => simp [((h p).ended hd).1] at hn
    refine ((h q).arrived (h p) hlt hn).attachStream key ((h p).arrived (h p) hlt hn) ?_ ?_ <;>
      unfold Network.arrived <;> rw [streams_modifyStream_self]
    exact hclosed
  · exact h q

def opening (s : Network) (p : Peer) (c : Nat) : Network :=
  (s.modifyStream p c fun e => { e with opened := true }).modifyPool p fun pool => { pool with
    connecting := none
    connections := some c }

theorem onopen_eq (s : Network) (c : Nat) : s.onopen c =
    if (s.streams (s.dialer c) c).attached ∧ (s.streams (s.dialer c) c).opened = false ∧
        (s.streams (s.dialer c) c).closed = false ∧ (s.pools (s.dialer c)).queue = [] then
      s.opening (s.dialer c) c
    else s := rfl

theorem streams_opening : (s.opening p c).streams =
    (s.modifyStream p c fun e => { e with opened := true }).streams := rfl

theorem field_opening {α : Type} (g : Stream → α)
    (hg : ∀ e : Stream, g { e with opened := true } = g e) (q : Peer) (d : Nat) :
    g ((s.opening p c).streams q d) = g (s.streams q d) := by
  rw [streams_opening]
  exact field_modifyStream g (hg _) q d

theorem Tidy.opening (h : s.Tidy q) (ha : (s.streams p c).attached = true)
    (hn : (s.streams p c).closed = false) : (s.opening p c).Tidy q := by
  by_cases hq : q = p
  · subst hq
    have hpool : (s.opening q c).pools q =
        { s.pools q with connecting := none, connections := some c } := pools_modifyPool_self
    refine ⟨.inl (by rw [hpool]), fun hd => ?_, fun {d} hd => ?_, fun {d} had hnd => ?_,
      fun {d} had => ?_, fun {d} hd => ?_, fun {d} hd => ?_, fun {d} hw => ?_, fun {e d} hw => ?_⟩
    · rw [hpool] at hd
      cases hd
    · rw [hpool] at hd
      obtain rfl := Option.some.inj hd
      rw [streams_opening, streams_modifyStream_self]
      exact ⟨ha, rfl, hn⟩
    · rw [field_opening Stream.attached fun _ => rfl] at had
      rw [field_opening Stream.closed fun _ => rfl] at hnd
      have hget := (h.held had hnd).symm.trans (h.held ha hn)
      rw [hpool, Option.some.inj hget]
      rfl
    · rw [field_opening Stream.attached fun _ => rfl] at had
      rw [field_opening Stream.present fun _ => rfl]
      exact h.here had
    · rw [field_opening Stream.closed fun _ => rfl] at hd
      rw [field_opening Stream.present fun _ => rfl, field_opening Stream.destroyed fun _ => rfl]
      exact h.ended hd
    · have hdc : d ≠ c := by
        rintro rfl
        rw [h.fresh hd] at ha
        cases ha
      rw [streams_opening, streams_modifyStream_of_ne (.inr hdc)]
      exact h.fresh hd
    · rw [hpool] at hw
      rw [field_opening Stream.present fun _ => rfl]
      exact h.waits hw
    · rw [field_opening Stream.deferred fun _ => rfl] at hw
      rw [field_opening Stream.present fun _ => rfl]
      exact h.defers hw
  · refine h.of_same (pools_modifyPool_of_ne hq) ?_ le_rfl
    rw [streams_opening, streams_of_ne_peer hq]

theorem Tidy.onopen (h : s.Tidy q) (c : Nat) : (s.onopen c).Tidy q := by
  rw [onopen_eq]
  split
  · next hc => exact h.opening hc.1 hc.2.2.1
  · exact h

/-- A destroyed stream closes. -/
def shut (s : Network) (p : Peer) (c : Nat) : Network :=
  (s.modifyStream p c fun e => { e with closed := true, deferred := [] }).modifyPool p fun pool =>
    if (s.streams p c).attached then
      if (s.streams p c).opened then
        { pool with connections := none, queue := (s.streams p c).deferred }
      else { pool with connecting := none, queue := (s.streams p c).deferred }
    else { pool with queue := (s.streams p c).deferred }

theorem onclose_eq (s : Network) (p : Peer) (c : Nat) : s.onclose p c =
    if (s.streams p c).present ∧ (s.streams p c).destroyed ∧ (s.streams p c).closed = false ∧
        (s.pools p).queue = [] then s.shut p c
    else s := rfl

theorem streams_shut : (s.shut p c).streams =
    (s.modifyStream p c fun e => { e with closed := true, deferred := [] }).streams := rfl

theorem queue_shut : ((s.shut p c).pools p).queue = (s.streams p c).deferred := by
  unfold shut
  rw [pools_modifyPool_self]
  split <;> [split; skip] <;> rfl

theorem field_shut {α : Type} (g : Stream → α)
    (hg : ∀ e : Stream, g { e with closed := true, deferred := [] } = g e) (q : Peer) (d : Nat) :
    g ((s.shut p c).streams q d) = g (s.streams q d) := by
  rw [streams_shut]
  exact field_modifyStream g (hg _) q d

theorem Tidy.shut_registered (h : s.Tidy p) (ha : (s.streams p c).attached = true)
    (hn : (s.streams p c).closed = false) :
    ((s.shut p c).pools p).connecting = none ∧ ((s.shut p c).pools p).connections = none := by
  unfold shut
  rw [pools_modifyPool_self, if_pos ha]
  rcases get_eq_some (h.held ha hn) with hg | hg
  · have ho := (h.connections hg).2.1
    rw [if_pos ho]
    have hs := h.single
    rw [hg] at hs
    exact ⟨by simpa using hs, rfl⟩
  · have ho := (h.connecting hg).2.1
    rw [if_neg (by simp [ho])]
    have hs := h.single
    rw [hg] at hs
    exact ⟨rfl, by simpa using hs⟩

theorem shut_other (ha : (s.streams p c).attached = false) :
    ((s.shut p c).pools p).connecting = (s.pools p).connecting ∧
      ((s.shut p c).pools p).connections = (s.pools p).connections := by
  unfold shut
  rw [pools_modifyPool_self, if_neg (by simp [ha])]
  exact ⟨rfl, rfl⟩

theorem Tidy.shut (h : s.Tidy q) (hp : (s.streams p c).present = true)
    (hd : (s.streams p c).destroyed = true) (hn : (s.streams p c).closed = false) :
    (s.shut p c).Tidy q := by
  by_cases hq : q = p
  · subst hq
    have hself : (s.shut q c).streams q c =
        { s.streams q c with closed := true, deferred := [] } := by
      rw [streams_shut, streams_modifyStream_self]
    have hother : ∀ {d}, d ≠ c → (s.shut q c).streams q d = s.streams q d := by
      intro d hdc
      rw [streams_shut, streams_modifyStream_of_ne (.inr hdc)]
    have hpresent : ∀ d, ((s.shut q c).streams q d).present = (s.streams q d).present :=
      field_shut Stream.present (fun _ => rfl) q
    -- what the pool still holds is not the stream that closes
    have hkept : ∀ {d}, ((s.shut q c).pools q).connecting = some d ∨
        ((s.shut q c).pools q).connections = some d → d ≠ c ∧
        (((s.shut q c).pools q).connecting = (s.pools q).connecting ∧
          ((s.shut q c).pools q).connections = (s.pools q).connections) := by
      intro d hg
      cases ha : (s.streams q c).attached with
      | true =>
        obtain ⟨h1, h2⟩ := h.shut_registered ha hn
        simp [h1, h2] at hg
      | false =>
        have hsame := shut_other ha
        refine ⟨?_, hsame⟩
        rintro rfl
        rw [hsame.1, hsame.2] at hg
        rcases hg with hg | hg
        · simp [(h.connecting hg).1] at ha
        · simp [(h.connections hg).1] at ha
    refine ⟨?_, fun {d} hg => ?_, fun {d} hg => ?_, fun {d} had hnd => ?_, fun {d} had => ?_,
      fun {d} hcl => ?_, fun {d} hd' => ?_, fun {d} hw => ?_, fun {e d} hw => ?_⟩
    · cases ha : (s.streams q c).attached with
      | true => exact .inl (h.shut_registered ha hn).1
      | false =>
        rw [(shut_other ha).1, (shut_other ha).2]
        exact h.single
    · obtain ⟨hdc, hsame⟩ := hkept (.inl hg)
      rw [hother hdc]
      exact h.connecting (hsame.1.symm.trans hg)
    · obtain ⟨hdc, hsame⟩ := hkept (.inr hg)
      rw [hother hdc]
      exact h.connections (hsame.2.symm.trans hg)
    · have hdc : d ≠ c := by
        rintro rfl
        rw [hself] at hnd
        cases hnd
      rw [hother hdc] at had hnd
      have hget := h.held had hnd
      have ha : (s.streams q c).attached = false := by
        cases ha : (s.streams q c).attached with
        | false => rfl
        | true => exact absurd (Option.some.inj (hget.symm.trans (h.held ha hn))) hdc
      unfold ConnectionPool.get
      rw [(shut_other ha).1, (shut_other ha).2]
      exact hget
    · rw [field_shut Stream.attached fun _ => rfl] at had
      rw [hpresent]
      exact h.here had
    · rw [hpresent, field_shut Stream.destroyed fun _ => rfl]
      by_cases hdc : d = c
      · exact hdc ▸ ⟨hp, hd⟩
      · rw [hother hdc] at hcl
        exact h.ended hcl
    · have hdc : d ≠ c := by
        rintro rfl
        exact absurd (h.lt_made hp) (not_lt.mpr hd')
      rw [hother hdc]
      exact h.fresh hd'
    · rw [queue_shut] at hw
      rw [hpresent]
      exact h.defers hw
    · rw [hpresent]
      by_cases hec : e = c
      · subst hec
        rw [hself] at hw
        cases hw
      · rw [hother hec] at hw
        exact h.defers hw
  · refine h.of_same (pools_modifyPool_of_ne hq) ?_ le_rfl
    rw [streams_shut, streams_of_ne_peer hq]

theorem Tidy.onclose (h : s.Tidy q) (p : Peer) (c : Nat) : (s.onclose p c).Tidy q := by
  rw [onclose_eq]
  split
  · next hc => exact h.shut hc.1 hc.2.1 hc.2.2.1
  · exact h

theorem Tidy.dequeue (h : s.Tidy q) {rest : List Nat} (hq : (s.pools p).queue = c :: rest) :
    (s.modifyPool p fun pool => { pool with queue := rest }).Tidy q := by
  by_cases hqp : q = p
  · subst hqp
    have hpool : (s.modifyPool q fun pool => { pool with queue := rest }).pools q =
        { s.pools q with queue := rest } := pools_modifyPool_self
    refine ⟨?_, ?_, ?_, ?_, h.here, h.ended, h.fresh, fun hw => ?_, h.defers⟩
    · rw [hpool]
      exact h.single
    · rw [hpool]
      exact h.connecting
    · rw [hpool]
      exact h.connections
    · rw [hpool]
      exact h.held
    · rw [hpool] at hw
      exact h.waits (hq ▸ List.mem_cons_of_mem c hw)
  · exact h.of_same (pools_modifyPool_of_ne hqp) rfl le_rfl

theorem Tidy.callback (h : ∀ q, s.Tidy q) (p q : Peer) : (s.callback key p).Tidy q := by
  unfold Network.callback
  cases hq : (s.pools p).queue with
  | nil => exact h q
  | cons c rest =>
    dsimp only
    split
    · exact (h q).dequeue hq
    · next hn =>
      refine ((h q).dequeue hq).attachStream key ((h p).dequeue hq) ?_ (by simpa using hn)
      exact (h p).waits (hq ▸ List.mem_cons_self)

theorem Tidy.propagate (h : ∀ q, s.Tidy q) (p : Peer) (c : Nat) (q : Peer) :
    (s.propagate p c).Tidy q := by
  unfold Network.propagate
  split
  · next hc => exact (h q).destroy hc.2 (fun _ => ⟨rfl, rfl, rfl, rfl, rfl⟩) fun d hd => .inl hd
  · exact h q

theorem Tidy.release (h : ∀ q, s.Tidy q) (p : Peer) (c : Nat) (q : Peer) :
    (s.release p c).Tidy q := by
  unfold Network.release
  split
  · next hc => exact (h q).destroy hc (fun _ => ⟨rfl, rfl, rfl, rfl, rfl⟩) fun d hd => .inl hd
  · exact h q

theorem Tidy.step (h : ∀ q, s.Tidy q) (event : Event) (q : Peer) : (s.step key event).Tidy q := by
  cases event with
  | connect p => exact Tidy.connect key h p q
  | connection c => exact Tidy.onconnection key h c q
  | opened c => exact (h q).onopen c
  | propagate p c => exact Tidy.propagate h p c q
  | close p c => exact (h q).onclose p c
  | callback p => exact Tidy.callback key h p q
  | release p c => exact Tidy.release h p c q

end

end Network

end HyperDht.ConnectionPools
