import HyperDht.Lib.JsMap
import HyperDht.Lib.Modify
import HyperDht.Private.Logical
import Mathlib.Algebra.Order.BigOperators.Group.List
import Mathlib.Algebra.Order.Ring.Nat
import Mathlib.Data.List.Count
import Mathlib.Data.List.Induction
import Mathlib.Tactic.Common

/-!
# The streams of a server

A server counts the streams of all its circuits in `_activeStreams`. A stream is
counted when its circuit accepts it, and uncounted by its close callback, by the
cleanup of its splice, or when its circuit is destroyed. The model keeps beside
the counter which streams it was raised and lowered for.

A call out of a circuit (the secret stream, a connection listener, a send on a
full link) may destroy or retire circuits before it returns; what it does is part
of the event (`Call`).
-/

namespace HyperDht.Private

/-- What a `DestinationCircuit` knows of its streams. A stream is the number of
its raw stream. -/
structure ServerCircuit where
  streams : JsMap Nat Nat
  lastStreamId : Nat
  closed : Bool
  retired : Bool

/-- A server with all its circuits. `peak` is the most `_activeStreams` has been,
`counted` and `uncounted` are the streams it was raised and lowered for, `cleaned`
the splices cleaned up. -/
structure StreamServer where
  circuits : List ServerCircuit
  activeStreams : Int
  peak : Int
  nextRaw : Nat
  counted : List Nat
  uncounted : List Nat
  cleaned : List Nat

/-- What code outside a circuit does to circuits. -/
inductive CircuitAct where
  | destroy (c : Nat)
  | retire (c : Nat)
  deriving DecidableEq, Repr

/-- A call out of a circuit, and whether it throws. -/
structure Call where
  acts : List CircuitAct
  throws : Bool
  deriving DecidableEq, Repr

/-- What is called when a stream is accepted: the secret stream, and the
connection listeners, if there is no firewall. -/
structure AcceptCalls where
  secret : Call
  listener : Option Call
  deriving DecidableEq, Repr

/-- How the calls of a spliced stream go: is the raw stream of the guard usable,
does creating and connecting the splice throw, what does the send of SPLICE_READY. -/
structure SpliceCalls where
  guardUsable : Bool
  createThrows : Bool
  connectThrows : Bool
  ready : List CircuitAct
  deriving DecidableEq, Repr

/-- What happens to a server. `reset` is what the send of a RESET does. -/
inductive ServerEvent where
  | circuit
  | openFrame (c streamId : Nat) (reset : List CircuitAct) (accept : AcceptCalls)
  | spliceOpenFrame (c streamId guardDownId : Nat) (reset : List CircuitAct) (calls : SpliceCalls)
      (accept : AcceptCalls)
  | streamClose (c streamId raw : Nat)
  | spliceClose (c streamId raw : Nat) (reset : List CircuitAct)
  | act (act : CircuitAct)
  deriving DecidableEq, Repr

namespace StreamServer

def empty : StreamServer := ⟨[], 0, 0, 0, [], [], []⟩

def modify (s : StreamServer) (c : Nat) (f : ServerCircuit → ServerCircuit) : StreamServer :=
  { s with circuits := s.circuits.modify c f }

def count (s : StreamServer) (raw : Nat) : StreamServer :=
  { s with
    activeStreams := s.activeStreams + 1
    peak := max s.peak (s.activeStreams + 1)
    counted := raw :: s.counted }

def uncount (s : StreamServer) (raw : Nat) : StreamServer :=
  { s with activeStreams := s.activeStreams - 1, uncounted := raw :: s.uncounted }

def remove (s : StreamServer) (c streamId raw : Nat) : StreamServer :=
  (s.modify c fun k => { k with streams := k.streams.delete streamId }).uncount raw

def destroy (s : StreamServer) (c : Nat) : StreamServer :=
  match s.circuits[c]? with
  | none => s
  | some k =>
    if k.closed then s
    else
      k.streams.entries.foldl (fun s e => s.remove c e.1 e.2)
        (s.modify c fun k => { k with closed := true })

/-- The circuit is destroyed if it is retired and has no streams. -/
def destroyIfIdle (s : StreamServer) (c : Nat) : StreamServer :=
  match s.circuits[c]? with
  | none => s
  | some k => if k.retired && k.streams.size = 0 then s.destroy c else s

def retire (s : StreamServer) (c : Nat) : StreamServer :=
  match s.circuits[c]? with
  | none => s
  | some k =>
    if k.closed || k.retired then s
    else (s.modify c fun k => { k with retired := true }).destroyIfIdle c

def act (s : StreamServer) : CircuitAct → StreamServer
  | .destroy c => s.destroy c
  | .retire c => s.retire c

def acts (s : StreamServer) (acts : List CircuitAct) : StreamServer := acts.foldl act s

/-- The secret stream is created and handed to the listeners; whether it throws. -/
def accept (s : StreamServer) (a : AcceptCalls) : StreamServer × Bool :=
  if a.secret.throws then (s.acts a.secret.acts, true)
  else
    match a.listener with
    | none => (s.acts a.secret.acts, false)
    | some listener => ((s.acts a.secret.acts).acts listener.acts, listener.throws)

def _open (s : StreamServer) (c streamId : Nat) (reset : List CircuitAct) (a : AcceptCalls) :
    StreamServer × Bool :=
  match s.circuits[c]? with
  | none => (s, false)
  | some k =>
    if streamId % 2 ≠ 0 ∨ streamId ≤ k.lastStreamId then (s, true)
    else
      let s := s.modify c fun k => { k with lastStreamId := streamId }
      if k.retired ∨ s.activeStreams ≥ maxRouteStreams then (s.acts reset, false)
      else
        let raw := s.nextRaw
        let s := { s.count raw with nextRaw := raw + 1 }
        (s.modify c fun k => { k with streams := k.streams.set streamId raw }).accept a

def _openSpliced (s : StreamServer) (c streamId guardDownId : Nat) (reset : List CircuitAct)
    (calls : SpliceCalls) (a : AcceptCalls) : StreamServer × Bool :=
  match s.circuits[c]? with
  | none => (s, false)
  | some k =>
    if streamId % 2 ≠ 0 ∨ streamId ≤ k.lastStreamId ∨ guardDownId = 0 then (s, true)
    else
      let s := s.modify c fun k => { k with lastStreamId := streamId }
      if k.retired ∨ s.activeStreams ≥ maxSplicedRouteStreams then (s.acts reset, false)
      else if calls.guardUsable = false then (s.acts reset, false)
      else
        let raw := s.nextRaw
        let s := { s.count raw with nextRaw := raw + 1 }
        if calls.createThrows then (s, true)
        else
          let s := s.modify c fun k => { k with streams := k.streams.set streamId raw }
          if calls.connectThrows then (s, true) else (s.acts calls.ready).accept a

/-- `_receive` of an open: a closed circuit's link delivers nothing, and what is
thrown destroys the circuit. -/
def receive (s : StreamServer) (c : Nat) (f : StreamServer → StreamServer × Bool) : StreamServer :=
  match s.circuits[c]? with
  | none => s
  | some k => if k.closed then s else if (f s).2 then (f s).1.destroy c else (f s).1

/-- The close callback of a `LogicalRouteStream`. -/
def onclose (s : StreamServer) (c streamId raw : Nat) : StreamServer :=
  match s.circuits[c]? with
  | none => s
  | some k =>
    if k.streams.get? streamId ≠ some raw then s
    else (s.remove c streamId raw).destroyIfIdle c

/-- The close callback of a spliced stream. -/
def cleanup (s : StreamServer) (c streamId raw : Nat) (reset : List CircuitAct) : StreamServer :=
  match s.circuits[c]? with
  | none => s
  | some k =>
    if raw ∈ s.cleaned then s
    else
      let s := { s with cleaned := raw :: s.cleaned }
      let s := if k.streams.get? streamId = some raw then s.remove c streamId raw else s
      (if k.closed then s else s.acts reset).destroyIfIdle c

def step (s : StreamServer) : ServerEvent → StreamServer
  | .circuit => { s with circuits := s.circuits ++ [⟨.empty, 0, false, false⟩] }
  | .openFrame c streamId reset a => s.receive c fun s => s._open c streamId reset a
  | .spliceOpenFrame c streamId guardDownId reset calls a =>
    s.receive c fun s => s._openSpliced c streamId guardDownId reset calls a
  | .streamClose c streamId raw => s.onclose c streamId raw
  | .spliceClose c streamId raw reset => s.cleanup c streamId raw reset
  | .act a => s.act a

def run (s : StreamServer) (events : List ServerEvent) : StreamServer := events.foldl step s

/-! ## The balance -/

/-- The streams of all circuits, weighted. -/
def held (s : StreamServer) (w : Nat → Nat) : Nat :=
  (s.circuits.map fun k => k.streams.total fun _ raw => w raw).sum

/-- What the counter was raised for is what it was lowered for, what the circuits
hold, and what was lost. -/
structure Tallied (lost : List Nat) (s : StreamServer) : Prop where
  active : s.activeStreams = s.counted.length - s.uncounted.length
  peak : s.activeStreams ≤ s.peak
  balance : ∀ w : Nat → Nat, (s.counted.map w).sum =
    (s.uncounted.map w).sum + s.held w + (lost.map w).sum
  fresh : ∀ raw ∈ s.counted, raw < s.nextRaw
  nodup : s.counted.Nodup
  ids : ∀ {i : Nat} {k : ServerCircuit}, s.circuits[i]? = some k → ∀ {id raw : Nat},
    k.streams.get? id = some raw → id ≤ k.lastStreamId

/-- And a closed circuit holds no stream. -/
structure Balanced (lost : List Nat) (s : StreamServer) : Prop extends Tallied lost s where
  closed : ∀ {i : Nat} {k : ServerCircuit}, s.circuits[i]? = some k → k.closed = true →
    k.streams.size = 0

theorem get_modify (s : StreamServer) (c : Nat) (f : ServerCircuit → ServerCircuit) (i : Nat) :
    (s.modify c f).circuits[i]? = (s.circuits[i]?).map fun k => if c = i then f k else k :=
  List.getElem?_modify f c s.circuits i

theorem get_modify_self {s : StreamServer} {c : Nat} {k : ServerCircuit}
    (hk : s.circuits[c]? = some k) (f : ServerCircuit → ServerCircuit) :
    (s.modify c f).circuits[c]? = some (f k) := by
  rw [get_modify, hk, Option.map_some, if_pos rfl]

theorem exists_of_modify {s : StreamServer} {c i : Nat} {f : ServerCircuit → ServerCircuit}
    {k' : ServerCircuit} (hk' : (s.modify c f).circuits[i]? = some k') :
    ∃ k, s.circuits[i]? = some k ∧ k' = if c = i then f k else k := by
  rw [get_modify] at hk'
  obtain ⟨k, hk, he⟩ := Option.map_eq_some_iff.mp hk'
  exact ⟨k, hk, he.symm⟩

theorem held_modify {s : StreamServer} {c : Nat} {k : ServerCircuit} (hk : s.circuits[c]? = some k)
    (f : ServerCircuit → ServerCircuit) (w : Nat → Nat) :
    (s.modify c f).held w + (k.streams.total fun _ raw => w raw) =
      s.held w + (f k).streams.total fun _ raw => w raw :=
  sum_map_modify hk fun k : ServerCircuit => k.streams.total fun _ raw => w raw

theorem Tallied.modify {lost : List Nat} {s : StreamServer} (h : s.Tallied lost) {c : Nat}
    {k : ServerCircuit} (hk : s.circuits[c]? = some k) {f : ServerCircuit → ServerCircuit}
    (hstreams : (f k).streams = k.streams) (hlast : k.lastStreamId ≤ (f k).lastStreamId) :
    (s.modify c f).Tallied lost := by
  refine ⟨h.active, h.peak, fun w => ?_, h.fresh, h.nodup, fun {i k'} hk' {id raw} hg => ?_⟩
  · have := h.balance w
    have hheld := held_modify hk f w
    rw [hstreams] at hheld
    show (s.counted.map w).sum = (s.uncounted.map w).sum + (s.modify c f).held w + _
    omega
  · obtain ⟨k₀, hk₀, rfl⟩ := exists_of_modify hk'
    by_cases he : c = i
    · subst he
      obtain rfl := Option.some.inj (hk.symm.trans hk₀)
      rw [if_pos rfl, hstreams] at hg
      rw [if_pos rfl]
      exact (h.ids hk hg).trans hlast
    · rw [if_neg he] at hg ⊢
      exact h.ids hk₀ hg

theorem Balanced.modify {lost : List Nat} {s : StreamServer} (h : s.Balanced lost) {c : Nat}
    {k : ServerCircuit} (hk : s.circuits[c]? = some k) {f : ServerCircuit → ServerCircuit}
    (hstreams : (f k).streams = k.streams) (hlast : k.lastStreamId ≤ (f k).lastStreamId)
    (hclosed : (f k).closed = k.closed) : (s.modify c f).Balanced lost := by
  refine ⟨h.toTallied.modify hk hstreams hlast, fun {i k'} hk' hc => ?_⟩
  obtain ⟨k₀, hk₀, rfl⟩ := exists_of_modify hk'
  by_cases he : c = i
  · subst he
    obtain rfl := Option.some.inj (hk.symm.trans hk₀)
    rw [if_pos rfl] at hc ⊢
    rw [hstreams]
    exact h.closed hk (hclosed ▸ hc)
  · rw [if_neg he] at hc ⊢
    exact h.closed hk₀ hc

/-! ## Streams leave -/

theorem Tallied.remove {lost : List Nat} {s : StreamServer} (h : s.Tallied lost) {c : Nat}
    {k : ServerCircuit} (hk : s.circuits[c]? = some k) {id raw : Nat}
    (hg : k.streams.get? id = some raw) : (s.remove c id raw).Tallied lost := by
  refine ⟨?_, ?_, fun w => ?_, h.fresh, h.nodup, fun {i k'} hk' {id' raw'} hg' => ?_⟩
  · have := h.active
    show s.activeStreams - 1 = (s.counted.length : Int) - ((raw :: s.uncounted).length : Int)
    rw [List.length_cons]
    omega
  · have := h.peak
    show s.activeStreams - 1 ≤ s.peak
    omega
  · have := h.balance w
    have hheld := held_modify hk (fun k => { k with streams := k.streams.delete id }) w
    have htotal := JsMap.total_delete hg fun _ raw => w raw
    show (s.counted.map w).sum = ((raw :: s.uncounted).map w).sum +
      (s.modify c fun k => { k with streams := k.streams.delete id }).held w + _
    rw [List.map_cons, List.sum_cons]
    dsimp only at hheld htotal
    omega
  · obtain ⟨k₀, hk₀, rfl⟩ := exists_of_modify hk'
    by_cases he : c = i
    · rw [if_pos he] at hg' ⊢
      have hg₀ : (k₀.streams.delete id).get? id' = some raw' := hg'
      rw [JsMap.get?_delete] at hg₀
      split at hg₀
      · cases hg₀
      · exact h.ids hk₀ hg₀
    · rw [if_neg he] at hg' ⊢
      exact h.ids hk₀ hg'

theorem get_remove_ne {s : StreamServer} {c i : Nat} (hne : c ≠ i) (id raw : Nat) :
    (s.remove c id raw).circuits[i]? = s.circuits[i]? := by
  show (s.modify c _).circuits[i]? = _
  rw [get_modify]
  simp [hne]

theorem Balanced.remove {lost : List Nat} {s : StreamServer} (h : s.Balanced lost) {c : Nat}
    {k : ServerCircuit} (hk : s.circuits[c]? = some k) {id raw : Nat}
    (hg : k.streams.get? id = some raw) : (s.remove c id raw).Balanced lost := by
  refine ⟨h.toTallied.remove hk hg, fun {i k'} hk' hc => ?_⟩
  by_cases he : c = i
  · subst he
    obtain ⟨k₀, hk₀, rfl⟩ := exists_of_modify hk'
    obtain rfl := Option.some.inj (hk.symm.trans hk₀)
    rw [if_pos rfl] at hc
    have := h.closed hk hc
    have := JsMap.size_delete hg
    omega
  · rw [get_remove_ne he] at hk'
    exact h.closed hk' hc

theorem Tallied.removeAll {lost : List Nat} {c : Nat} : ∀ (es : List (Nat × Nat)) {s : StreamServer}
    {k : ServerCircuit}, s.Tallied lost → s.circuits[c]? = some k → k.streams.entries = es →
    (es.foldl (fun s e => s.remove c e.1 e.2) s).Tallied lost ∧
      (∀ i, c ≠ i → (es.foldl (fun s e => s.remove c e.1 e.2) s).circuits[i]? = s.circuits[i]?) ∧
      ∃ k', (es.foldl (fun s e => s.remove c e.1 e.2) s).circuits[c]? = some k' ∧
        k'.streams.size = 0 := by
  intro es
  induction es with
  | nil =>
    intro s k h hk he
    refine ⟨h, fun i _ => rfl, k, hk, ?_⟩
    rw [JsMap.size, he]
    rfl
  | cons e es ih =>
    intro s k h hk he
    have hg : k.streams.get? e.1 = some e.2 := by
      rw [JsMap.get?, he, JsMap.find, if_pos rfl]
    have hrest : (k.streams.delete e.1).entries = es := by
      show JsMap.drop e.1 k.streams.entries = es
      rw [he, JsMap.drop, if_pos rfl]
    have hk' : (s.remove c e.1 e.2).circuits[c]? =
        some { k with streams := k.streams.delete e.1 } :=
      get_modify_self hk _
    obtain ⟨h₁, h₂, h₃⟩ := ih (h.remove hk hg) hk' hrest
    exact ⟨h₁, fun i hi => (h₂ i hi).trans (get_remove_ne hi e.1 e.2), h₃⟩

theorem Balanced.destroy {lost : List Nat} {s : StreamServer} (h : s.Balanced lost) (c : Nat) :
    (s.destroy c).Balanced lost := by
  unfold StreamServer.destroy
  split
  · exact h
  · next k hk =>
    split
    · exact h
    · have hk' := get_modify_self hk fun k => { k with closed := true }
      obtain ⟨h₁, h₂, k₃, hk₃, hsize⟩ := Tallied.removeAll (c := c) k.streams.entries
        (h.toTallied.modify hk (f := fun k => { k with closed := true }) rfl le_rfl) hk' rfl
      refine ⟨h₁, fun {i k'} hi hc => ?_⟩
      by_cases he : c = i
      · subst he
        rw [hk₃] at hi
        obtain rfl := Option.some.inj hi
        exact hsize
      · rw [h₂ i he, get_modify] at hi
        obtain ⟨k₀, hk₀, rfl⟩ := Option.map_eq_some_iff.mp hi
        rw [if_neg he] at hc ⊢
        exact h.closed hk₀ hc

theorem Balanced.destroyIfIdle {lost : List Nat} {s : StreamServer} (h : s.Balanced lost) (c : Nat) :
    (s.destroyIfIdle c).Balanced lost := by
  unfold StreamServer.destroyIfIdle
  split
  · exact h
  · split
    · exact h.destroy c
    · exact h

theorem Balanced.act {lost : List Nat} {s : StreamServer} (h : s.Balanced lost) (a : CircuitAct) :
    (s.act a).Balanced lost := by
  cases a with
  | destroy c => exact h.destroy c
  | retire c =>
    show (s.retire c).Balanced lost
    unfold StreamServer.retire
    split
    · exact h
    · next k hk =>
      split
      · exact h
      · exact (h.modify hk rfl le_rfl rfl).destroyIfIdle c

theorem Balanced.acts {lost : List Nat} {s : StreamServer} (h : s.Balanced lost)
    (as : List CircuitAct) : (s.acts as).Balanced lost := by
  unfold StreamServer.acts
  induction as generalizing s with
  | nil => exact h
  | cons a as ih => exact ih (h.act a)

theorem Balanced.accept {lost : List Nat} {s : StreamServer} (h : s.Balanced lost) (a : AcceptCalls) :
    (s.accept a).1.Balanced lost := by
  unfold StreamServer.accept
  split
  · exact h.acts _
  · split
    · exact h.acts _
    · exact (h.acts _).acts _

/-! ## Streams enter -/

theorem Balanced.count {lost : List Nat} {s : StreamServer} (h : s.Balanced lost) :
    { s.count s.nextRaw with nextRaw := s.nextRaw + 1 }.Balanced (s.nextRaw :: lost) := by
  refine ⟨⟨?_, le_max_right _ _, fun w => ?_, fun raw hraw => ?_, ?_, h.ids⟩, h.closed⟩
  · have := h.active
    show s.activeStreams + 1 = ((s.nextRaw :: s.counted).length : Int) - (s.uncounted.length : Int)
    rw [List.length_cons]
    omega
  · have := h.balance w
    show ((s.nextRaw :: s.counted).map w).sum = (s.uncounted.map w).sum + s.held w + _
    rw [List.map_cons, List.sum_cons, List.map_cons, List.sum_cons]
    omega
  · show raw < s.nextRaw + 1
    rcases List.mem_cons.mp hraw with rfl | hraw
    · omega
    · have := h.fresh raw hraw
      omega
  · refine List.nodup_cons.mpr ⟨fun hmem => ?_, h.nodup⟩
    exact lt_irrefl _ (h.fresh _ hmem)

theorem Balanced.set {lost : List Nat} {raw : Nat} {s : StreamServer} (h : s.Balanced (raw :: lost))
    {c : Nat} {k : ServerCircuit} (hk : s.circuits[c]? = some k) (hopen : k.closed = false) {id : Nat}
    (hnew : k.streams.get? id = none) (hlast : id ≤ k.lastStreamId) :
    (s.modify c fun k => { k with streams := k.streams.set id raw }).Balanced lost := by
  refine ⟨⟨h.active, h.peak, fun w => ?_, h.fresh, h.nodup, fun {i k'} hk' {id' raw'} hg => ?_⟩,
    fun {i k'} hk' hc => ?_⟩
  · have := h.balance w
    have hheld := held_modify hk (fun k => { k with streams := k.streams.set id raw }) w
    have htotal := JsMap.total_set_new hnew raw fun _ raw => w raw
    show (s.counted.map w).sum = (s.uncounted.map w).sum +
      (s.modify c fun k => { k with streams := k.streams.set id raw }).held w + _
    rw [List.map_cons, List.sum_cons] at this
    dsimp only at hheld htotal
    omega
  · obtain ⟨k₀, hk₀, rfl⟩ := exists_of_modify hk'
    by_cases he : c = i
    · subst he
      obtain rfl := Option.some.inj (hk.symm.trans hk₀)
      rw [if_pos rfl] at hg ⊢
      have hg₀ : (k.streams.set id raw).get? id' = some raw' := hg
      rw [JsMap.get?_set] at hg₀
      split at hg₀
      · next he => exact he ▸ hlast
      · exact h.ids hk hg₀
    · rw [if_neg he] at hg ⊢
      exact h.ids hk₀ hg
  · obtain ⟨k₀, hk₀, rfl⟩ := exists_of_modify hk'
    by_cases he : c = i
    · subst he
      obtain rfl := Option.some.inj (hk.symm.trans hk₀)
      rw [if_pos rfl] at hc
      have hc' : k.closed = true := hc
      rw [hopen] at hc'
      cases hc'
    · rw [if_neg he] at hc ⊢
      exact h.closed hk₀ hc

theorem Balanced.enter {lost : List Nat} {s : StreamServer} (h : s.Balanced lost) {c : Nat}
    {k : ServerCircuit} (hk : s.circuits[c]? = some k) (hopen : k.closed = false) {id : Nat}
    (hlast : k.lastStreamId < id) :
    ({ (s.modify c fun k => { k with lastStreamId := id }).count s.nextRaw with
        nextRaw := s.nextRaw + 1 }.modify c fun k =>
          { k with streams := k.streams.set id s.nextRaw }).Balanced lost := by
  have h₁ := h.modify hk (f := fun k => { k with lastStreamId := id }) rfl hlast.le rfl
  refine h₁.count.set (get_modify_self hk _) hopen ?_ le_rfl
  show k.streams.get? id = none
  cases hg : k.streams.get? id with
  | none => rfl
  | some raw =>
    have := h.ids hk hg
    omega

theorem Balanced.open {lost : List Nat} {s : StreamServer} (h : s.Balanced lost) {c : Nat}
    {k : ServerCircuit} (hk : s.circuits[c]? = some k) (hopen : k.closed = false) (id : Nat)
    (reset : List CircuitAct) (a : AcceptCalls) : (s._open c id reset a).1.Balanced lost := by
  unfold _open
  rw [hk]
  dsimp only
  split
  · exact h
  · next hid =>
    obtain ⟨-, hlast⟩ := not_or.mp hid
    split
    · exact (h.modify hk rfl (by dsimp only; omega) rfl).acts _
    · exact (h.enter hk hopen (by omega)).accept a

/-! ## Splices that are lost -/

/-- A SPLICE_OPEN passes every check of its circuit. -/
def splices (s : StreamServer) (c id guardDownId : Nat) (calls : SpliceCalls) : Bool :=
  match s.circuits[c]? with
  | none => false
  | some k =>
    !k.closed && id % 2 = 0 && k.lastStreamId < id && guardDownId ≠ 0 && !k.retired &&
      s.activeStreams < maxSplicedRouteStreams && calls.guardUsable

/-- A SPLICE_OPEN whose stream is counted, and whose raw stream is then not
created. -/
def leaks (s : StreamServer) : ServerEvent → Bool
  | .spliceOpenFrame c id guardDownId _ calls _ =>
    s.splices c id guardDownId calls && calls.createThrows
  | _ => false

def loss (s : StreamServer) (e : ServerEvent) : List Nat := if s.leaks e then [s.nextRaw] else []

theorem loss_of_not {s : StreamServer} {e : ServerEvent} (h : ¬s.leaks e = true) : s.loss e = [] := by
  rw [loss, if_neg h]

theorem splices_iff {s : StreamServer} {c : Nat} {k : ServerCircuit}
    (hk : s.circuits[c]? = some k) (id guardDownId : Nat) (calls : SpliceCalls) :
    s.splices c id guardDownId calls = true ↔
      k.closed = false ∧ ¬(id % 2 ≠ 0 ∨ id ≤ k.lastStreamId ∨ guardDownId = 0) ∧
        ¬(k.retired = true ∨ s.activeStreams ≥ maxSplicedRouteStreams) ∧
        ¬calls.guardUsable = false := by
  rw [splices, hk]
  simp only [Bool.and_eq_true, decide_eq_true_eq, Bool.not_eq_true', not_or, not_le, ge_iff_le,
    Bool.not_eq_true, ne_eq, Bool.not_eq_false, and_assoc, Decidable.not_not]

theorem leaks_spliceOpenFrame {s : StreamServer} {c : Nat} {k : ServerCircuit}
    (hk : s.circuits[c]? = some k) (id guardDownId : Nat) (reset : List CircuitAct)
    (calls : SpliceCalls) (a : AcceptCalls) :
    s.leaks (.spliceOpenFrame c id guardDownId reset calls a) = true ↔
      k.closed = false ∧ ¬(id % 2 ≠ 0 ∨ id ≤ k.lastStreamId ∨ guardDownId = 0) ∧
        ¬(k.retired = true ∨ s.activeStreams ≥ maxSplicedRouteStreams) ∧
        ¬calls.guardUsable = false ∧ calls.createThrows = true := by
  rw [leaks, Bool.and_eq_true, splices_iff hk]
  simp only [and_assoc]

theorem Balanced.openSpliced {lost : List Nat} {s : StreamServer} (h : s.Balanced lost) {c : Nat}
    {k : ServerCircuit} (hk : s.circuits[c]? = some k) (hopen : k.closed = false)
    (id guardDownId : Nat) (reset : List CircuitAct) (calls : SpliceCalls) (a : AcceptCalls)
    {lost' : List Nat}
    (hlost : lost' = s.loss (.spliceOpenFrame c id guardDownId reset calls a) ++ lost) :
    (s._openSpliced c id guardDownId reset calls a).1.Balanced lost' := by
  have hkeep : ∀ {p : Prop}, (s.leaks (.spliceOpenFrame c id guardDownId reset calls a) = true → p) →
      ¬p → lost' = lost := by
    intro p hp hnp
    rw [hlost, loss_of_not fun hl => hnp (hp hl)]
    rfl
  have hiff := leaks_spliceOpenFrame hk id guardDownId reset calls a
  unfold _openSpliced
  rw [hk]
  dsimp only
  split
  · next hid =>
    rw [hkeep (fun hl => (hiff.mp hl).2.1) (not_not.mpr hid)]
    exact h
  · next hid =>
    obtain ⟨-, hid'⟩ := not_or.mp hid
    obtain ⟨hlast, -⟩ := not_or.mp hid'
    have h₁ := h.modify hk (f := fun k => { k with lastStreamId := id }) rfl (by dsimp only; omega) rfl
    split
    · next hrej =>
      rw [hkeep (fun hl => (hiff.mp hl).2.2.1) (not_not.mpr hrej)]
      exact h₁.acts _
    · next hrej =>
      split
      · next huse =>
        rw [hkeep (fun hl => (hiff.mp hl).2.2.2.1) (not_not.mpr huse)]
        exact h₁.acts _
      · next huse =>
        split
        · next hthrow =>
          rw [hlost, loss, if_pos (hiff.mpr ⟨hopen, hid, hrej, huse, hthrow⟩)]
          exact h₁.count
        · next hthrow =>
          rw [hkeep (fun hl => (hiff.mp hl).2.2.2.2) hthrow]
          have h₂ := h.enter hk hopen (by omega : k.lastStreamId < id)
          split
          · exact h₂
          · exact (h₂.acts _).accept a

theorem Balanced.step {lost : List Nat} {s : StreamServer} (h : s.Balanced lost) (e : ServerEvent) :
    (s.step e).Balanced (s.loss e ++ lost) := by
  cases e with
  | circuit =>
    have hheld : ∀ w, (s.step .circuit).held w = s.held w := by
      intro w
      show ((s.circuits ++ [_]).map _).sum = _
      rw [List.map_append, List.sum_append]
      rfl
    have hget : ∀ {i : Nat} {k : ServerCircuit}, (s.step .circuit).circuits[i]? = some k →
        s.circuits[i]? = some k ∨ k = ⟨.empty, 0, false, false⟩ := by
      intro i k hk
      have hk' : (s.circuits ++ [⟨.empty, 0, false, false⟩])[i]? = some k := hk
      rw [List.getElem?_append] at hk'
      split at hk'
      · exact .inl hk'
      · exact .inr (List.mem_singleton.mp (List.mem_of_getElem? hk'))
    refine ⟨⟨h.active, h.peak, fun w => ?_, h.fresh, h.nodup, fun {i k} hk {id raw} hg => ?_⟩,
      fun {i k} hk hc => ?_⟩
    · show _ = _ + (s.step .circuit).held w + _
      rw [hheld]
      exact h.balance w
    · rcases hget hk with hk | rfl
      · exact h.ids hk hg
      · cases hg
    · rcases hget hk with hk | rfl
      · exact h.closed hk hc
      · rfl
  | openFrame c id reset a =>
    show (s.receive c fun s => s._open c id reset a).Balanced lost
    unfold receive
    split
    · exact h
    · next k hk =>
      split
      · exact h
      · next hopen =>
        have := h.open hk (by simpa using hopen) id reset a
        split
        · exact this.destroy c
        · exact this
  | spliceOpenFrame c id guardDownId reset calls a =>
    generalize hlost : s.loss (.spliceOpenFrame c id guardDownId reset calls a) ++ lost = lost'
    show (s.receive c fun s => s._openSpliced c id guardDownId reset calls a).Balanced lost'
    unfold receive
    split
    · next hk =>
      rw [← hlost, loss, leaks, splices, hk]
      exact h
    · next k hk =>
      split
      · next hclosed =>
        rw [← hlost, loss_of_not fun hl => by
          have := ((leaks_spliceOpenFrame hk _ _ _ _ _).mp hl).1
          rw [hclosed] at this
          cases this]
        exact h
      · next hopen =>
        have := h.openSpliced hk (by simpa using hopen) id guardDownId reset calls a hlost.symm
        split
        · exact this.destroy c
        · exact this
  | streamClose c id raw =>
    show (s.onclose c id raw).Balanced lost
    unfold onclose
    split
    · exact h
    · next k hk =>
      split
      · exact h
      · next hg => exact (h.remove hk (not_not.mp hg)).destroyIfIdle c
  | spliceClose c id raw reset =>
    show (s.cleanup c id raw reset).Balanced lost
    unfold cleanup
    split
    · exact h
    · next k hk =>
      split
      · exact h
      · have h₁ : { s with cleaned := raw :: s.cleaned }.Balanced lost :=
          ⟨⟨h.active, h.peak, h.balance, h.fresh, h.nodup, h.ids⟩, h.closed⟩
        dsimp only
        refine Balanced.destroyIfIdle ?_ c
        have h₂ : (if k.streams.get? id = some raw then
            { s with cleaned := raw :: s.cleaned }.remove c id raw
            else { s with cleaned := raw :: s.cleaned }).Balanced lost := by
          split
          · next hg => exact h₁.remove hk hg
          · exact h₁
        split
        · exact h₂
        · exact h₂.acts reset
  | act a => exact h.act a

/-! ## The limit -/

/-- `MAX_SPLICED_ROUTE_STREAMS` or `MAX_ROUTE_STREAMS`, by the profile. -/
def limitOf (spliced : Bool) : Nat := if spliced then maxSplicedRouteStreams else maxRouteStreams

theorem maxRouteStreams_le_limitOf (spliced : Bool) : maxRouteStreams ≤ limitOf spliced := by
  cases spliced <;> decide

/-- A SPLICE_OPEN that is admitted where the profile has no room for it. -/
def overfills (spliced : Bool) (s : StreamServer) : ServerEvent → Bool
  | .spliceOpenFrame c id guardDownId _ calls _ =>
    s.splices c id guardDownId calls && limitOf spliced ≤ s.activeStreams
  | _ => false

theorem peak_removeAll (c : Nat) (es : List (Nat × Nat)) (s : StreamServer) :
    (es.foldl (fun s e => s.remove c e.1 e.2) s).peak = s.peak := by
  induction es generalizing s with
  | nil => rfl
  | cons e es ih => exact ih (s.remove c e.1 e.2)

@[simp] theorem peak_destroy (s : StreamServer) (c : Nat) : (s.destroy c).peak = s.peak := by
  unfold destroy
  split
  · rfl
  · split
    · rfl
    · exact peak_removeAll c _ _

@[simp] theorem peak_destroyIfIdle (s : StreamServer) (c : Nat) :
    (s.destroyIfIdle c).peak = s.peak := by
  unfold destroyIfIdle
  split
  · rfl
  · split
    · exact peak_destroy s c
    · rfl

theorem peak_act (s : StreamServer) (a : CircuitAct) : (s.act a).peak = s.peak := by
  cases a with
  | destroy c => exact peak_destroy s c
  | retire c =>
    show (s.retire c).peak = _
    unfold retire
    split
    · rfl
    · split
      · rfl
      · exact peak_destroyIfIdle _ c

@[simp] theorem peak_acts (s : StreamServer) (as : List CircuitAct) :
    (s.acts as).peak = s.peak := by
  unfold acts
  induction as generalizing s with
  | nil => rfl
  | cons a as ih => exact (ih (s.act a)).trans (peak_act s a)

@[simp] theorem peak_accept (s : StreamServer) (a : AcceptCalls) :
    (s.accept a).1.peak = s.peak := by
  unfold accept
  split
  · exact peak_acts _ _
  · split
    · exact peak_acts _ _
    · exact (peak_acts _ _).trans (peak_acts _ _)

theorem peak_open_le (s : StreamServer) (c id : Nat) (reset : List CircuitAct) (a : AcceptCalls) :
    (s._open c id reset a).1.peak ≤ max s.peak maxRouteStreams := by
  unfold _open
  split
  · exact le_max_left _ _
  · split
    · exact le_max_left _ _
    · dsimp only
      split
      · rw [peak_acts]
        exact le_max_left _ _
      · next hrej =>
        have hlt : s.activeStreams < maxRouteStreams := not_le.mp (not_or.mp hrej).2
        rw [peak_accept]
        show max s.peak (s.activeStreams + 1) ≤ _
        omega

/-- The counter is raised once for an admitted SPLICE_OPEN, whatever happens after it. -/
theorem peak_openSpliced {s : StreamServer} {c : Nat} {k : ServerCircuit}
    (hk : s.circuits[c]? = some k) (hopen : k.closed = false) (id guardDownId : Nat)
    (reset : List CircuitAct) (calls : SpliceCalls) (a : AcceptCalls) :
    (s._openSpliced c id guardDownId reset calls a).1.peak =
      if s.splices c id guardDownId calls then max s.peak (s.activeStreams + 1) else s.peak := by
  have hiff := splices_iff hk id guardDownId calls
  unfold _openSpliced
  rw [hk]
  dsimp only
  split
  · next hid => rw [if_neg fun h => (hiff.mp h).2.1 hid]
  · next hid =>
    split
    · next hrej =>
      rw [peak_acts, if_neg fun h => (hiff.mp h).2.2.1 hrej]
      rfl
    · next hrej =>
      split
      · next huse =>
        rw [peak_acts, if_neg fun h => (hiff.mp h).2.2.2 huse]
        rfl
      · next huse =>
        rw [if_pos (hiff.mpr ⟨hopen, hid, hrej, huse⟩)]
        split
        · rfl
        · split
          · rfl
          · rw [peak_accept, peak_acts]
            rfl

theorem peak_receive {s : StreamServer} {c : Nat} {k : ServerCircuit}
    (hk : s.circuits[c]? = some k) (hopen : k.closed = false)
    (f : StreamServer → StreamServer × Bool) : (s.receive c f).peak = (f s).1.peak := by
  unfold receive
  rw [hk]
  simp only [hopen, Bool.false_eq_true, if_false]
  split
  · exact peak_destroy _ c
  · rfl

theorem receive_closed {s : StreamServer} {c : Nat}
    (hclosed : ∀ k, s.circuits[c]? = some k → k.closed = true)
    (f : StreamServer → StreamServer × Bool) : s.receive c f = s := by
  unfold receive
  split
  · rfl
  · next k hk => rw [if_pos (hclosed k hk)]

theorem peak_spliceOpenFrame (s : StreamServer) (c id guardDownId : Nat) (reset : List CircuitAct)
    (calls : SpliceCalls) (a : AcceptCalls) :
    (s.step (.spliceOpenFrame c id guardDownId reset calls a)).peak =
      if s.splices c id guardDownId calls then max s.peak (s.activeStreams + 1) else s.peak := by
  show (s.receive c fun s => s._openSpliced c id guardDownId reset calls a).peak = _
  by_cases h : ∃ k, s.circuits[c]? = some k ∧ k.closed = false
  · obtain ⟨k, hk, hopen⟩ := h
    rw [peak_receive hk hopen, peak_openSpliced hk hopen]
  · have hclosed : ∀ k, s.circuits[c]? = some k → k.closed = true := fun k hk => by
      by_contra hc
      exact h ⟨k, hk, by simpa using hc⟩
    rw [receive_closed hclosed, if_neg]
    intro hs
    cases hk : s.circuits[c]? with
    | none =>
      rw [splices, hk] at hs
      cases hs
    | some k =>
      have hopen := ((splices_iff hk id guardDownId calls).mp hs).1
      rw [hclosed k hk] at hopen
      cases hopen

/-- The peak stays within the profile's limit. -/
theorem peak_step_le {s : StreamServer} {e : ServerEvent} {spliced : Bool}
    (h : s.peak ≤ limitOf spliced) (he : overfills spliced s e = false) :
    (s.step e).peak ≤ limitOf spliced := by
  cases e with
  | circuit => exact h
  | openFrame c id reset a =>
    show (s.receive c fun s => s._open c id reset a).peak ≤ _
    by_cases hc : ∃ k, s.circuits[c]? = some k ∧ k.closed = false
    · obtain ⟨k, hk, hopen⟩ := hc
      rw [peak_receive hk hopen]
      have := maxRouteStreams_le_limitOf spliced
      exact (peak_open_le s c id reset a).trans (max_le h (by exact_mod_cast this))
    · rw [receive_closed fun k hk => by
        by_contra hclosed
        exact hc ⟨k, hk, by simpa using hclosed⟩]
      exact h
  | spliceOpenFrame c id guardDownId reset calls a =>
    rw [peak_spliceOpenFrame]
    split
    · next hs =>
      rw [overfills, hs, Bool.true_and, decide_eq_false_iff_not, not_le] at he
      exact max_le h he
    · exact h
  | streamClose c id raw =>
    show (s.onclose c id raw).peak ≤ _
    unfold onclose
    split
    · exact h
    · split
      · exact h
      · rw [peak_destroyIfIdle]
        exact h
  | spliceClose c id raw reset =>
    show (s.cleanup c id raw reset).peak ≤ _
    unfold cleanup
    split
    · exact h
    · split
      · exact h
      · dsimp only
        rw [peak_destroyIfIdle]
        split <;> split
        · exact h
        · exact h
        · rw [peak_acts]
          exact h
        · rw [peak_acts]
          exact h
  | act a => exact (peak_act s a).le.trans h

/-! ## The counter is exact -/

/-- The sum of `streams.size` over the circuits that are not closed. -/
def streamCount (s : StreamServer) : Nat :=
  ((s.circuits.filter fun k => !k.closed).map fun k => k.streams.size).sum

/-- A circuit that is not closed holds the stream. -/
def holds (s : StreamServer) (raw : Nat) : Bool :=
  s.circuits.any fun k => !k.closed && k.streams.entries.any fun e => e.2 = raw

/-- `_activeStreams` is exact and never was above the limit, and each stream is counted
once and uncounted once. -/
structure Exact (limit : Nat) (s : StreamServer) : Prop where
  sum : s.activeStreams = s.streamCount
  nonneg : 0 ≤ s.activeStreams
  bound : s.activeStreams ≤ limit
  peak : s.peak ≤ limit
  once : ∀ raw, s.counted.count raw ≤ 1 ∧
    s.uncounted.count raw = if s.holds raw then 0 else s.counted.count raw

theorem sum_filter_of_zero {α : Type} {p : α → Bool} {f : α → Nat} {l : List α}
    (h : ∀ x ∈ l, p x = false → f x = 0) : ((l.filter p).map f).sum = (l.map f).sum := by
  induction l with
  | nil => rfl
  | cons x l ih =>
    have hl := ih fun y hy => h y (List.mem_cons_of_mem x hy)
    rw [List.filter_cons, List.map_cons, List.sum_cons]
    split
    · rw [List.map_cons, List.sum_cons, hl]
    · next hp =>
      have := h x List.mem_cons_self (by simpa using hp)
      omega

theorem sum_indicator (l : List Nat) (raw : Nat) :
    (l.map fun r => if r = raw then 1 else 0).sum = l.count raw := by
  induction l with
  | nil => rfl
  | cons r l ih =>
    rw [List.map_cons, List.sum_cons, ih, List.count_cons]
    simp only [beq_iff_eq]
    omega

theorem Balanced.held_one {lost : List Nat} {s : StreamServer} (h : s.Balanced lost) :
    s.held (fun _ => 1) = s.streamCount := by
  unfold held streamCount
  rw [sum_filter_of_zero]
  · simp only [← JsMap.size_eq_total]
  · intro k hk hc
    obtain ⟨i, hi⟩ := List.mem_iff_getElem?.mp hk
    exact h.closed hi (by simpa using hc)

theorem Balanced.active_eq {lost : List Nat} {s : StreamServer} (h : s.Balanced lost) :
    s.activeStreams = s.streamCount + lost.length := by
  have hb := h.balance fun _ => 1
  rw [h.held_one] at hb
  simp only [List.map_const', List.sum_replicate_nat, Nat.mul_one] at hb
  have := h.active
  omega

theorem Balanced.holds_iff {lost : List Nat} {s : StreamServer} (h : s.Balanced lost) (raw : Nat) :
    s.holds raw = true ↔ s.held (fun r => if r = raw then 1 else 0) ≠ 0 := by
  unfold holds held
  rw [List.any_eq_true]
  constructor
  · rintro ⟨k, hk, hp⟩ hz
    simp only [Bool.and_eq_true, List.any_eq_true, decide_eq_true_eq] at hp
    obtain ⟨-, e, he, rfl⟩ := hp
    have htot := List.sum_eq_zero_iff.mp hz _ (List.mem_map_of_mem hk)
    have := List.sum_eq_zero_iff.mp htot _ (List.mem_map_of_mem he)
    simp at this
  · intro hne
    by_contra hall
    apply hne
    apply List.sum_eq_zero_iff.mpr
    intro v hv
    obtain ⟨k, hk, rfl⟩ := List.mem_map.mp hv
    apply List.sum_eq_zero_iff.mpr
    intro u hu
    obtain ⟨e, he, rfl⟩ := List.mem_map.mp hu
    dsimp only
    rw [if_neg]
    intro heq
    refine hall ⟨k, hk, ?_⟩
    have hopen : k.closed = false := by
      by_contra hc
      obtain ⟨i, hi⟩ := List.mem_iff_getElem?.mp hk
      have hsize := h.closed hi (by simpa using hc)
      have := List.length_pos_of_mem he
      rw [JsMap.size] at hsize
      omega
    rw [hopen, Bool.not_false, Bool.true_and, List.any_eq_true]
    exact ⟨e, he, by simpa using heq⟩

theorem Balanced.exact {s : StreamServer} (h : s.Balanced []) {limit : Nat}
    (hlimit : s.peak ≤ limit) : s.Exact limit := by
  have hsum : s.activeStreams = s.streamCount := by
    have := h.active_eq
    simpa using this
  refine ⟨hsum, by omega, h.peak.trans hlimit, hlimit, fun raw => ?_⟩
  have hone : s.counted.count raw ≤ 1 := List.nodup_iff_count_le_one.mp h.nodup raw
  have hb := h.balance fun r => if r = raw then 1 else 0
  rw [sum_indicator, sum_indicator, List.map_nil, List.sum_nil] at hb
  refine ⟨hone, ?_⟩
  split
  · next hh =>
    have := (h.holds_iff raw).mp hh
    omega
  · next hh =>
    have : s.held (fun r => if r = raw then 1 else 0) = 0 := by
      by_contra hne
      exact hh ((h.holds_iff raw).mpr hne)
    omega

theorem run_append (s : StreamServer) (es : List ServerEvent) (e : ServerEvent) :
    s.run (es ++ [e]) = (s.run es).step e := by
  unfold run
  rw [List.foldl_append]
  rfl

theorem balanced_empty : empty.Balanced [] := by
  refine ⟨⟨rfl, le_rfl, fun w => rfl, fun raw h => absurd h List.not_mem_nil, List.nodup_nil,
      fun hk => ?_⟩,
    fun hk => ?_⟩
  · cases hk
  · cases hk

theorem balanced_run (es : List ServerEvent) : ∃ lost, (empty.run es).Balanced lost := by
  induction es using List.reverseRecOn with
  | nil => exact ⟨[], balanced_empty⟩
  | append_singleton es e ih =>
    obtain ⟨lost, h⟩ := ih
    rw [run_append]
    exact ⟨_, h.step e⟩

theorem run_take_succ {events : List ServerEvent} {n : Nat} {e : ServerEvent}
    (he : events[n]? = some e) :
    empty.run (events.take (n + 1)) = (empty.run (events.take n)).step e := by
  rw [List.take_add_one, he, Option.toList_some, run_append]

/-- The counter of a server is exact in every state of a run if and only if no
event of the run is a SPLICE_OPEN that passes all checks and then fails to create
its raw stream, or passes them where the profile's limit is reached. -/
theorem activeStreams_exact_iff (spliced : Bool) (events : List ServerEvent) :
    (∀ n, (empty.run (events.take n)).Exact (limitOf spliced)) ↔
      ∀ n e, events[n]? = some e → (empty.run (events.take n)).leaks e = false ∧
        overfills spliced (empty.run (events.take n)) e = false := by
  constructor
  · intro h n e he
    have hnext := h (n + 1)
    rw [run_take_succ he] at hnext
    refine ⟨?_, ?_⟩
    · by_contra hleak
      obtain ⟨lost, hb⟩ := balanced_run (events.take n)
      have hnil : lost.length = 0 := by
        have h₁ := hb.active_eq
        have h₂ := (h n).sum
        omega
      have hstep := hb.step e
      rw [loss, if_pos (by simpa using hleak)] at hstep
      have h₁ := hstep.active_eq
      have h₂ := hnext.sum
      rw [List.length_append, List.length_singleton] at h₁
      omega
    · by_contra hfull
      rw [Bool.not_eq_false] at hfull
      have hpeak := hnext.peak
      cases e with
      | spliceOpenFrame c id guardDownId reset calls a =>
        rw [overfills, Bool.and_eq_true, decide_eq_true_eq] at hfull
        rw [peak_spliceOpenFrame, if_pos hfull.1] at hpeak
        have := le_max_right (empty.run (events.take n)).peak
          ((empty.run (events.take n)).activeStreams + 1)
        omega
      | _ => cases hfull
  · intro h n
    have hinv : (empty.run (events.take n)).Balanced [] ∧
        (empty.run (events.take n)).peak ≤ limitOf spliced := by
      induction n with
      | zero => exact ⟨balanced_empty, Int.natCast_nonneg _⟩
      | succ n ih =>
        cases he : events[n]? with
        | none =>
          rw [List.take_add_one, he, Option.toList_none, List.append_nil]
          exact ih
        | some e =>
          obtain ⟨hleak, hfull⟩ := h n e he
          have hstep := ih.1.step e
          rw [loss_of_not (by rw [hleak]; exact Bool.false_ne_true)] at hstep
          rw [run_take_succ he]
          exact ⟨hstep, peak_step_le ih.2 hfull⟩
    exact hinv.1.exact hinv.2

/-- A SPLICE_OPEN whose raw stream cannot be created leaves the server one stream
short: its only circuit is closed, and the counter stays at one. -/
theorem activeStreams_not_exact :
    ¬(empty.run [.circuit, .spliceOpenFrame 0 2 1 [] ⟨true, true, false, []⟩
      ⟨⟨[], false⟩, none⟩]).Exact (limitOf true) := by
  intro h
  exact absurd h.sum (by decide)

/-- Sixty-five splices of a standard server, none of which fails. -/
example : ¬(empty.run (.circuit :: (List.range 65).map fun i => .spliceOpenFrame 0 (2 * (i + 1)) 1 []
    ⟨true, false, false, []⟩ ⟨⟨[], false⟩, none⟩)).Exact (limitOf false) :=
  fun h => absurd h.bound (by decide +kernel)

end StreamServer

end HyperDht.Private
