import HyperDht.Lib.Modify
import HyperDht.Private.Descriptor

/-!
# Raw splice streams and their pairs

A relay joins two raw streams into a pair (`watchSplicedPair`). The pair is closed by its
owner, by the close event of either stream, or by its idle timer; whichever comes first
takes it from its owner and destroys both streams.

`Heap` holds all raw streams and pairs ever made, by number. `Owned` says that an owner
holds exactly its open pairs, and that a closed pair has destroyed its streams once. What
is not covered by it is an orphan: a stream that is neither destroyed nor in a pair.
-/

namespace HyperDht.Private.Splicing

def routeLifetimeMs : Int := maxLifetimeMs

/-- A raw stream. `destroys` counts the calls of its `destroy`; `destroyed` is set when its
close event is emitted. `owner` is the stream id, or the record, it was made for. -/
structure RawStream where
  owner : Nat
  destroys : Nat
  destroyed : Bool
  deriving DecidableEq, Repr

namespace RawStream

def new (owner : Nat) : RawStream := ⟨owner, 0, false⟩

def gone (s : RawStream) : Bool := s.destroyed || 0 < s.destroys

/-- `if (!stream.destroyed) stream.destroy(error)`. -/
def destroy (s : RawStream) : RawStream :=
  if s.destroyed then s else { s with destroys := s.destroys + 1 }

@[simp] theorem destroy_owner (s : RawStream) : s.destroy.owner = s.owner := by
  unfold destroy
  split <;> rfl

@[simp] theorem destroy_destroyed (s : RawStream) : s.destroy.destroyed = s.destroyed := by
  unfold destroy
  split <;> rfl

theorem gone_destroy (s : RawStream) : s.destroy.gone = true := by
  unfold destroy
  split
  · next h => simp [gone, h]
  · simp [gone]

theorem destroys_destroy_le (s : RawStream) : s.destroy.destroys ≤ s.destroys + 1 := by
  unfold destroy
  split <;> simp

end RawStream

/-- The object of `watchSplicedPair` with the variables of its closure. `closes` counts how
often the body of `close` ran. -/
structure Pair where
  owner : Nat
  up : Nat
  down : Nat
  active : Bool
  destroyed : Bool
  closes : Nat
  lastRx : Nat
  lastActiveAt : Int
  deriving DecidableEq, Repr

/-- Is `i` one of the two streams? -/
def Pair.Has (pair : Pair) (i : Nat) : Prop := i = pair.up ∨ i = pair.down

instance (pair : Pair) (i : Nat) : Decidable (pair.Has i) := inferInstanceAs (Decidable (_ ∨ _))

def Pair.closed (pair : Pair) : Pair := { pair with destroyed := true, closes := pair.closes + 1 }

structure Heap where
  streams : List RawStream
  pairs : List Pair
  deriving DecidableEq, Repr

/-- How a call of `_createSpliceStream` goes: the raw streams of id 0 that it makes and
destroys at once, and whether it returns one in the end. -/
structure Creation where
  zeros : Nat
  made : Bool
  deriving DecidableEq, Repr

/-- The calls made for a frame of a splice: the two `_createSpliceStream`, the clock read by
`watchSplicedPair`, and whether `connect` and each `relayTo` return. -/
structure Calls where
  up : Creation
  down : Creation
  now : Int
  connect : Bool
  relayUp : Bool
  relayDown : Bool
  deriving DecidableEq, Repr

namespace Heap

def empty : Heap := ⟨[], []⟩

/-- `_createSpliceStream`; `none` where it throws. -/
def _createSpliceStream (h : Heap) (owner : Nat) (c : Creation) : Heap × Option Nat :=
  let streams := h.streams ++ List.replicate c.zeros (RawStream.new owner).destroy
  if c.made then ({ h with streams := streams ++ [.new owner] }, some streams.length)
  else ({ h with streams }, none)

/-- `watchSplicedPair`, without its timer and its listeners. -/
def watchSplicedPair (h : Heap) (owner up down : Nat) (now : Int) : Heap :=
  { h with pairs := h.pairs ++ [⟨owner, up, down, false, false, 0, 0, now⟩] }

/-- The streams and the pair of a SPLICE_OPEN; `none` where a call throws. -/
def openPair (h : Heap) (owner : Nat) (calls : Calls) : Heap × Option Nat :=
  match h._createSpliceStream owner calls.up with
  | (h, none) => (h, none)
  | (h, some up) =>
    match h._createSpliceStream owner calls.down with
    | (h, none) => (h, none)
    | (h, some down) => (h.watchSplicedPair owner up down calls.now, some h.pairs.length)

/-- The body of a pair's `close`, without `onDestroy`. -/
def close (h : Heap) (p : Nat) (pair : Pair) : Heap where
  streams := (h.streams.modify pair.up .destroy).modify pair.down .destroy
  pairs := h.pairs.modify p .closed

/-- The close event of a raw stream, before the listeners. -/
def ended (h : Heap) (i : Nat) : Heap :=
  { h with streams := h.streams.modify i fun s => { s with destroyed := true } }

/-- The pair that listens to the close event of a stream. -/
def watcher (h : Heap) (i : Nat) : Option Nat := h.pairs.findIdx? fun pair => pair.Has i

def touch (h : Heap) (p : Nat) (f : Pair → Pair) : Heap := { h with pairs := h.pairs.modify p f }

def activate (h : Heap) (p : Nat) : Heap := h.touch p fun pair => { pair with active := true }

/-- The idle timer of an open pair: the new state, and whether it closes the pair. -/
def poll (h : Heap) (p : Nat) (pair : Pair) (rx : Nat) (now : Int) : Heap × Bool :=
  if pair.lastRx < rx then
    (h.touch p fun pair => { pair with lastRx := rx, lastActiveAt := now }, false)
  else (h, routeLifetimeMs ≤ now - pair.lastActiveAt)

/-! ## Lookups -/

variable {h : Heap} {i p : Nat} {pair : Pair}

theorem pairs_close (q : Nat) :
    (h.close p pair).pairs[q]? = (h.pairs[q]?).map fun x => if p = q then x.closed else x :=
  List.getElem?_modify _ _ _ _

theorem streams_close (hne : pair.up ≠ pair.down) :
    (h.close p pair).streams[i]? =
      (h.streams[i]?).map fun s => if pair.Has i then s.destroy else s := by
  simp only [close, List.getElem?_modify, Option.map_eq_map, Option.map_map]
  congr 1
  funext s
  by_cases hu : pair.up = i
  · subst hu
    simp [Pair.Has, hne.symm]
  · by_cases hd : pair.down = i
    · subst hd
      simp [Pair.Has, hne]
    · simp [Pair.Has, hu, hd, Ne.symm hu, Ne.symm hd]

theorem streams_ended (j : Nat) :
    (h.ended i).streams[j]? =
      (h.streams[j]?).map fun s => if i = j then { s with destroyed := true } else s :=
  List.getElem?_modify _ _ _ _

theorem pairs_touch (f : Pair → Pair) (q : Nat) :
    (h.touch p f).pairs[q]? = (h.pairs[q]?).map fun x => if p = q then f x else x :=
  List.getElem?_modify _ _ _ _

theorem watcher_eq_some (hw : h.watcher i = some p) :
    ∃ pair, h.pairs[p]? = some pair ∧ pair.Has i := by
  obtain ⟨hlt, hi, -⟩ := List.findIdx?_eq_some_iff_getElem.mp hw
  exact ⟨h.pairs[p], List.getElem?_eq_getElem hlt, by simpa using hi⟩

theorem watcher_eq_none (hw : h.watcher i = none) (hp : h.pairs[p]? = some pair) :
    ¬ pair.Has i := by
  have := List.findIdx?_eq_none_iff.mp hw pair (List.mem_of_getElem? hp)
  simpa using this

@[simp] theorem pairs_createSpliceStream (owner : Nat) (c : Creation) :
    (h._createSpliceStream owner c).1.pairs = h.pairs := by
  unfold _createSpliceStream
  split <;> rfl

theorem streams_createSpliceStream (h : Heap) (owner : Nat) (c : Creation) :
    ∃ xs, (h._createSpliceStream owner c).1.streams = h.streams ++ xs := by
  unfold _createSpliceStream
  split
  · exact ⟨_, List.append_assoc _ _ _⟩
  · exact ⟨_, rfl⟩

theorem createSpliceStream_isSome (owner : Nat) (c : Creation) :
    (h._createSpliceStream owner c).2.isSome = c.made := by
  unfold _createSpliceStream
  cases hm : c.made <;> simp

theorem createSpliceStream_some {owner : Nat} {c : Creation}
    (hc : (h._createSpliceStream owner c).2 = some i) :
    (h._createSpliceStream owner c).1.streams[i]? = some (.new owner) ∧ h.streams.length ≤ i := by
  unfold _createSpliceStream at hc ⊢
  cases hm : c.made with
  | false => simp [hm] at hc
  | true =>
    simp only [hm, if_true, Option.some.injEq] at hc ⊢
    subst hc
    exact ⟨List.getElem?_concat_length, by simp⟩

end Heap

/-! ## Ownership -/

/-- A stream of a pair: it is destroyed at most as often as the pair is closed, and gone
once the pair is. -/
structure Side (pair : Pair) (s : RawStream) : Prop where
  owner : s.owner = pair.owner
  destroys : s.destroys ≤ pair.closes
  gone : pair.destroyed = true → s.gone = true

/-- `held k` is the pair that the owner `k` holds. -/
structure Owned (h : Heap) (held : Nat → Option Nat) : Prop where
  held_open : ∀ {k p : Nat}, held k = some p →
    ∃ pair, h.pairs[p]? = some pair ∧ pair.owner = k ∧ pair.destroyed = false
  open_held : ∀ {p : Nat} {pair : Pair}, h.pairs[p]? = some pair → pair.destroyed = false →
    held pair.owner = some p
  closes : ∀ {p : Nat} {pair : Pair}, h.pairs[p]? = some pair →
    pair.closes = pair.destroyed.toNat
  side : ∀ {p i : Nat} {pair : Pair}, h.pairs[p]? = some pair → pair.Has i →
    ∃ s, h.streams[i]? = some s ∧ Side pair s
  distinct : ∀ {p : Nat} {pair : Pair}, h.pairs[p]? = some pair → pair.up ≠ pair.down
  apart : ∀ {p q i : Nat} {pair other : Pair}, h.pairs[p]? = some pair →
    h.pairs[q]? = some other → pair.Has i → other.Has i → p = q

/-- The streams of open pairs, all but those of `but`, have not closed. -/
structure Live (h : Heap) (but : Option Nat) : Prop where
  alive : ∀ {p i : Nat} {pair : Pair} {s : RawStream}, h.pairs[p]? = some pair → pair.destroyed = false →
    but ≠ some p → pair.Has i → h.streams[i]? = some s → s.destroyed = false

/-- A stream made for `owner` that is neither gone nor in a pair. -/
def Orphan (owner : Nat) (h : Heap) (i : Nat) : Prop :=
  (∃ s, h.streams[i]? = some s ∧ s.gone = false ∧ s.owner = owner) ∧
    ∀ {p : Nat} {pair : Pair}, h.pairs[p]? = some pair → ¬ pair.Has i

variable {h : Heap} {held : Nat → Option Nat} {i p o : Nat} {pair : Pair}

theorem owned_empty : Owned .empty fun _ => none where
  held_open hp := by cases hp
  open_held hp := by simp [Heap.empty] at hp
  closes hp := by simp [Heap.empty] at hp
  side hp := by simp [Heap.empty] at hp
  distinct hp := by simp [Heap.empty] at hp
  apart hp := by simp [Heap.empty] at hp

namespace Owned

theorem close (ho : Owned h held) (hp : h.pairs[p]? = some pair) (hd : pair.destroyed = false) :
    Owned (h.close p pair) (Function.update held pair.owner none) where
  held_open := by
    intro k q hk
    by_cases hko : k = pair.owner
    · subst hko
      simp at hk
    rw [Function.update_of_ne hko] at hk
    obtain ⟨x, hx, rfl, hxd⟩ := ho.held_open hk
    have hne : p ≠ q := by
      rintro rfl
      exact hko (by rw [Option.some.inj (hx.symm.trans hp)])
    exact ⟨x, by simp [Heap.pairs_close, hx, hne], rfl, hxd⟩
  open_held := by
    intro q x hx hxd
    rw [Heap.pairs_close] at hx
    obtain ⟨y, hy, rfl⟩ := Option.map_eq_some_iff.mp hx
    split at hxd
    · simp [Pair.closed] at hxd
    next hne =>
    rw [if_neg hne]
    have hq := ho.open_held hy hxd
    rw [Function.update_of_ne, hq]
    intro heq
    rw [heq, ho.open_held hp hd] at hq
    exact hne (Option.some.inj hq)
  closes := by
    intro q x hx
    rw [Heap.pairs_close] at hx
    obtain ⟨y, hy, rfl⟩ := Option.map_eq_some_iff.mp hx
    split
    · next heq =>
      subst heq
      rw [hp] at hy
      cases hy
      simp [Pair.closed, ho.closes hp, hd]
    · exact ho.closes hy
  side := by
    intro q j x hx hj
    rw [Heap.pairs_close] at hx
    obtain ⟨y, hy, rfl⟩ := Option.map_eq_some_iff.mp hx
    rw [Heap.streams_close (ho.distinct hp)]
    split at hj
    · next heq =>
      subst heq
      rw [hp] at hy
      cases hy
      obtain ⟨s, hs, hside⟩ := ho.side hp hj
      refine ⟨s.destroy, by simp [hs, show pair.Has j from hj], ?_⟩
      rw [if_pos rfl]
      exact ⟨s.destroy_owner.trans hside.owner,
        s.destroys_destroy_le.trans (Nat.add_le_add_right hside.destroys 1),
        fun _ => s.gone_destroy⟩
    · next hne =>
      have hnot : ¬ pair.Has j := fun hh => hne (ho.apart hp hy hh hj)
      obtain ⟨s, hs, hside⟩ := ho.side hy hj
      rw [if_neg hne]
      exact ⟨s, by simp [hs, hnot], hside.owner, hside.destroys, hside.gone⟩
  distinct := by
    intro q x hx
    rw [Heap.pairs_close] at hx
    obtain ⟨y, hy, rfl⟩ := Option.map_eq_some_iff.mp hx
    have : y.up ≠ y.down := ho.distinct hy
    split <;> exact this
  apart := by
    intro q r j x y hx hy hxj hyj
    rw [Heap.pairs_close] at hx hy
    obtain ⟨x', hx', rfl⟩ := Option.map_eq_some_iff.mp hx
    obtain ⟨y', hy', rfl⟩ := Option.map_eq_some_iff.mp hy
    refine ho.apart hx' hy' (i := j) ?_ ?_
    · split at hxj <;> exact hxj
    · split at hyj <;> exact hyj

theorem append (ho : Owned h held) (xs : List RawStream) :
    Owned { h with streams := h.streams ++ xs } held where
  held_open := ho.held_open
  open_held := ho.open_held
  closes := ho.closes
  side hp hi := by
    obtain ⟨s, hs, hside⟩ := ho.side hp hi
    obtain ⟨hlt, -⟩ := List.getElem?_eq_some_iff.mp hs
    exact ⟨s, by rw [List.getElem?_append_left hlt, hs], hside.owner, hside.destroys, hside.gone⟩
  distinct := ho.distinct
  apart := ho.apart

theorem ended (ho : Owned h held) (j : Nat) : Owned (h.ended j) held where
  held_open := ho.held_open
  open_held := ho.open_held
  closes := ho.closes
  side hp hi := by
    obtain ⟨s, hs, hside⟩ := ho.side hp hi
    refine ⟨_, by rw [Heap.streams_ended, hs]; rfl, ?_⟩
    split
    · exact ⟨hside.owner, hside.destroys, fun _ => by simp [RawStream.gone]⟩
    · exact ⟨hside.owner, hside.destroys, hside.gone⟩
  distinct := ho.distinct
  apart := ho.apart

/-- A new pair of two fresh streams of one owner that holds none. -/
theorem watchSplicedPair {owner up down : Nat} (ho : Owned h held) (hheld : held owner = none)
    (hup : h.streams[up]? = some (.new owner)) (hdown : h.streams[down]? = some (.new owner))
    (hne : up ≠ down) (hfresh : ∀ {q : Nat} {x : Pair}, h.pairs[q]? = some x →
      ¬ x.Has up ∧ ¬ x.Has down) (now : Int) :
    Owned (h.watchSplicedPair owner up down now)
      (Function.update held owner (some h.pairs.length)) where
  held_open := by
    intro k q hk
    by_cases hko : k = owner
    · subst hko
      obtain rfl : h.pairs.length = q := by simpa using hk
      exact ⟨_, List.getElem?_concat_length, rfl, rfl⟩
    rw [Function.update_of_ne hko] at hk
    obtain ⟨x, hx, hxk, hxd⟩ := ho.held_open hk
    exact ⟨x, getElem?_concat_iff.mpr (.inl hx), hxk, hxd⟩
  open_held := by
    intro q x hx hxd
    rcases getElem?_concat_iff.mp hx with hx | ⟨rfl, rfl⟩
    · have hq := ho.open_held hx hxd
      rw [Function.update_of_ne, hq]
      intro heq
      rw [heq, hheld] at hq
      cases hq
    · simp
  closes := by
    intro q x hx
    rcases getElem?_concat_iff.mp hx with hx | ⟨rfl, rfl⟩
    · exact ho.closes hx
    · rfl
  side := by
    intro q j x hx hj
    rcases getElem?_concat_iff.mp hx with hx | ⟨rfl, rfl⟩
    · exact ho.side hx hj
    · refine ⟨.new owner, ?_, rfl, le_rfl, fun hd => by cases hd⟩
      rcases hj with rfl | rfl
      · exact hup
      · exact hdown
  distinct := by
    intro q x hx
    rcases getElem?_concat_iff.mp hx with hx | ⟨rfl, rfl⟩
    · exact ho.distinct hx
    · exact hne
  apart := by
    intro q r j x y hx hy hxj hyj
    rcases getElem?_concat_iff.mp hx with hx' | ⟨rfl, rfl⟩ <;>
      rcases getElem?_concat_iff.mp hy with hy' | ⟨rfl, rfl⟩
    · exact ho.apart hx' hy' hxj hyj
    · rcases hyj with rfl | rfl
      · exact absurd hxj (hfresh hx').1
      · exact absurd hxj (hfresh hx').2
    · rcases hxj with rfl | rfl
      · exact absurd hyj (hfresh hy').1
      · exact absurd hyj (hfresh hy').2
    · rfl

end Owned

/-- Pairs that differ in `active` and in the variables of the timer only. -/
structure Pair.Alike (x y : Pair) : Prop where
  owner : x.owner = y.owner
  up : x.up = y.up
  down : x.down = y.down
  destroyed : x.destroyed = y.destroyed
  closes : x.closes = y.closes

theorem Pair.Alike.refl (x : Pair) : x.Alike x := ⟨rfl, rfl, rfl, rfl, rfl⟩

theorem Pair.Alike.has {x y : Pair} (hxy : x.Alike y) : x.Has i ↔ y.Has i := by
  simp only [Pair.Has, hxy.up, hxy.down]

section Touch

variable {f : Pair → Pair} (hf : ∀ x, (f x).Alike x)

include hf

theorem touch_lookup {q : Nat} {x : Pair} (hx : (h.touch p f).pairs[q]? = some x) :
    ∃ y, h.pairs[q]? = some y ∧ x.Alike y := by
  rw [Heap.pairs_touch] at hx
  obtain ⟨y, hy, rfl⟩ := Option.map_eq_some_iff.mp hx
  refine ⟨y, hy, ?_⟩
  split
  · exact hf y
  · exact .refl y

theorem Owned.touch (ho : Owned h held) : Owned (h.touch p f) held where
  held_open := by
    intro k q hk
    obtain ⟨x, hx, hxk, hxd⟩ := ho.held_open hk
    rw [Heap.pairs_touch, hx]
    refine ⟨_, rfl, ?_⟩
    split
    · exact ⟨(hf x).owner.trans hxk, (hf x).destroyed.trans hxd⟩
    · exact ⟨hxk, hxd⟩
  open_held := by
    intro q x hx hxd
    obtain ⟨y, hy, hxy⟩ := touch_lookup hf hx
    rw [hxy.owner]
    exact ho.open_held hy (hxy.destroyed.symm.trans hxd)
  closes := by
    intro q x hx
    obtain ⟨y, hy, hxy⟩ := touch_lookup hf hx
    rw [hxy.closes, hxy.destroyed]
    exact ho.closes hy
  side := by
    intro q j x hx hj
    obtain ⟨y, hy, hxy⟩ := touch_lookup hf hx
    obtain ⟨s, hs, hside⟩ := ho.side hy (hxy.has.mp hj)
    exact ⟨s, hs, hside.owner.trans hxy.owner.symm, hside.destroys.trans hxy.closes.ge,
      fun hd => hside.gone (hxy.destroyed.symm.trans hd)⟩
  distinct := by
    intro q x hx
    obtain ⟨y, hy, hxy⟩ := touch_lookup hf hx
    rw [hxy.up, hxy.down]
    exact ho.distinct hy
  apart := by
    intro q r j x y hx hy hxj hyj
    obtain ⟨x', hx', hxx⟩ := touch_lookup hf hx
    obtain ⟨y', hy', hyy⟩ := touch_lookup hf hy
    exact ho.apart hx' hy' (hxx.has.mp hxj) (hyy.has.mp hyj)

theorem Live.touch (hl : Live h none) : Live (h.touch p f) none := by
  constructor
  intro q j x s hx hxd _ hj hs
  obtain ⟨y, hy, hxy⟩ := touch_lookup hf hx
  exact hl.alive hy (hxy.destroyed.symm.trans hxd) nofun (hxy.has.mp hj) hs

theorem Orphan.touch : Orphan o (h.touch p f) i ↔ Orphan o h i := by
  refine and_congr Iff.rfl ⟨fun ho q y hy hi => ?_, fun ho q x hx hi => ?_⟩
  · have hx : (h.touch p f).pairs[q]? = some (if p = q then f y else y) := by
      rw [Heap.pairs_touch, hy]
      rfl
    refine ho hx ?_
    split
    · exact (hf y).has.mpr hi
    · exact hi
  · obtain ⟨y, hy, hxy⟩ := touch_lookup hf hx
    exact ho hy (hxy.has.mp hi)

end Touch

/-! ## Live streams and orphans -/

theorem Live.close {but : Option Nat} (hl : Live h but) (ho : Owned h held)
    (hp : h.pairs[p]? = some pair) (hbut : but = none ∨ but = some p) :
    Live (h.close p pair) none := by
  constructor
  intro q j x s hx hxd _ hj hs
  rw [Heap.pairs_close] at hx
  obtain ⟨y, hy, rfl⟩ := Option.map_eq_some_iff.mp hx
  split at hxd
  · simp [Pair.closed] at hxd
  next hne =>
  rw [if_neg hne] at hj
  rw [Heap.streams_close (ho.distinct hp)] at hs
  obtain ⟨t, ht, rfl⟩ := Option.map_eq_some_iff.mp hs
  have hnot : ¬ pair.Has j := fun hh => hne (ho.apart hp hy hh hj)
  rw [if_neg hnot]
  refine hl.alive hy hxd ?_ hj ht
  rcases hbut with rfl | rfl
  · nofun
  · simpa using hne

/-- The pair that listens to the stream may now hold a closed stream, no other. -/
theorem Live.ended (hl : Live h none) (ho : Owned h held) (j : Nat) :
    Live (h.ended j) (h.watcher j) := by
  constructor
  intro q i x s hx hxd hbut hi hs
  rw [Heap.streams_ended] at hs
  obtain ⟨t, ht, rfl⟩ := Option.map_eq_some_iff.mp hs
  split
  · next heq =>
    subst heq
    cases hw : h.watcher j with
    | none => exact absurd hi (Heap.watcher_eq_none hw hx)
    | some p =>
      obtain ⟨y, hy, hyj⟩ := Heap.watcher_eq_some hw
      exact absurd (hw.trans (congrArg some (ho.apart hy hx hyj hi))) hbut
  · exact hl.alive hx hxd nofun hi ht

theorem Live.append (hl : Live h none) (ho : Owned h held) (xs : List RawStream) :
    Live { h with streams := h.streams ++ xs } none := by
  constructor
  intro q i x s hx hxd _ hi hs
  obtain ⟨t, ht, -⟩ := ho.side hx hi
  obtain ⟨hlt, -⟩ := List.getElem?_eq_some_iff.mp ht
  rw [List.getElem?_append_left hlt] at hs
  exact hl.alive hx hxd nofun hi hs

theorem Live.watchSplicedPair {owner up down : Nat} (hl : Live h none)
    (hup : h.streams[up]? = some (.new owner)) (hdown : h.streams[down]? = some (.new owner))
    (now : Int) : Live (h.watchSplicedPair owner up down now) none := by
  constructor
  intro q i x s hx hxd _ hi hs
  rcases getElem?_concat_iff.mp hx with hx | ⟨rfl, rfl⟩
  · exact hl.alive hx hxd nofun hi hs
  · rcases hi with rfl | rfl
    · rw [Option.some.inj (hs.symm.trans hup)]
      rfl
    · rw [Option.some.inj (hs.symm.trans hdown)]
      rfl

theorem orphan_close (ho : Owned h held) (hp : h.pairs[p]? = some pair) :
    Orphan o (h.close p pair) i ↔ Orphan o h i := by
  have hpairs : (∀ {q : Nat} {x : Pair}, (h.close p pair).pairs[q]? = some x → ¬ x.Has i) ↔
      ∀ {q : Nat} {x : Pair}, h.pairs[q]? = some x → ¬ x.Has i := by
    constructor
    · intro hall q x hx hi
      have hx' : (h.close p pair).pairs[q]? = some (if p = q then x.closed else x) := by
        rw [Heap.pairs_close, hx]
        rfl
      refine hall hx' ?_
      split <;> exact hi
    · intro hall q x hx hi
      rw [Heap.pairs_close] at hx
      obtain ⟨y, hy, rfl⟩ := Option.map_eq_some_iff.mp hx
      refine hall hy ?_
      split at hi <;> exact hi
  unfold Orphan
  rw [hpairs]
  refine and_congr_left fun hall => ?_
  rw [Heap.streams_close (ho.distinct hp)]
  simp [hall hp]

theorem orphan_of_ended {j : Nat} (ho : Orphan o (h.ended j) i) : Orphan o h i := by
  obtain ⟨⟨s, hs, hg⟩, hall⟩ := ho
  rw [Heap.streams_ended] at hs
  obtain ⟨t, ht, rfl⟩ := Option.map_eq_some_iff.mp hs
  refine ⟨⟨t, ht, ?_⟩, hall⟩
  split at hg
  · simp [RawStream.gone] at hg
  · exact hg

theorem orphan_createSpliceStream {owner : Nat} {c : Creation}
    (ho : Orphan o (h._createSpliceStream owner c).1 i) :
    Orphan o h i ∨ (h._createSpliceStream owner c).2 = some i := by
  obtain ⟨⟨s, hs, hg⟩, hall⟩ := ho
  rw [Heap.pairs_createSpliceStream] at hall
  -- A stream before the one returned is an old one, or one of id 0, which is gone.
  have hold : (h.streams ++ List.replicate c.zeros (RawStream.new owner).destroy)[i]? = some s →
      Orphan o h i := by
    intro hs
    rw [List.getElem?_append] at hs
    split at hs
    · exact ⟨⟨s, hs, hg⟩, hall⟩
    · rw [List.eq_of_mem_replicate (List.mem_of_getElem? hs), RawStream.gone_destroy] at hg
      cases hg.1
  unfold Heap._createSpliceStream at hs ⊢
  split at hs
  · next hm =>
    rw [if_pos hm]
    rcases getElem?_concat_iff.mp hs with hs | ⟨rfl, -⟩
    · exact .inl (hold hs)
    · exact .inr rfl
  · exact .inl (hold hs)

theorem orphan_of_watchSplicedPair {owner up down : Nat} {now : Int}
    (ho : Orphan o (h.watchSplicedPair owner up down now) i) :
    Orphan o h i ∧ i ≠ up ∧ i ≠ down := by
  have hnew := ho.2 (List.getElem?_concat_length)
  exact ⟨⟨ho.1, fun hp => ho.2 (getElem?_concat_iff.mpr (.inl hp))⟩,
    fun he => hnew (.inl he), fun he => hnew (.inr he)⟩

/-! ## Opening a pair -/

theorem Owned.createSpliceStream (ho : Owned h held) (owner : Nat) (c : Creation) :
    Owned (h._createSpliceStream owner c).1 held := by
  obtain ⟨xs, hxs⟩ := h.streams_createSpliceStream owner c
  have heq : (h._createSpliceStream owner c).1 = { h with streams := h.streams ++ xs } := by
    rw [← hxs, ← Heap.pairs_createSpliceStream owner c]
  rw [heq]
  exact ho.append xs

theorem Live.createSpliceStream (hl : Live h none) (ho : Owned h held) (owner : Nat)
    (c : Creation) : Live (h._createSpliceStream owner c).1 none := by
  obtain ⟨xs, hxs⟩ := h.streams_createSpliceStream owner c
  have heq : (h._createSpliceStream owner c).1 = { h with streams := h.streams ++ xs } := by
    rw [← hxs, ← Heap.pairs_createSpliceStream owner c]
  rw [heq]
  exact hl.append ho xs

theorem Owned.fresh (ho : Owned h held) {owner : Nat} {c : Creation}
    (hc : (h._createSpliceStream owner c).2 = some i) (hp : h.pairs[p]? = some pair) :
    ¬ pair.Has i := by
  intro hi
  obtain ⟨s, hs, -⟩ := ho.side hp hi
  have := (List.getElem?_eq_some_iff.mp hs).1
  have := (Heap.createSpliceStream_some hc).2
  omega

/-- The first call throws, or the second one does, or a pair is made. -/
theorem openPair_cases (h : Heap) (owner : Nat) (calls : Calls) :
    calls.up.made = false ∧
        h.openPair owner calls = ((h._createSpliceStream owner calls.up).1, none) ∨
      (∃ up, (h._createSpliceStream owner calls.up).2 = some up ∧ calls.down.made = false ∧
        h.openPair owner calls =
          (((h._createSpliceStream owner calls.up).1._createSpliceStream owner calls.down).1,
            none)) ∨
      ∃ up down, (h._createSpliceStream owner calls.up).2 = some up ∧
        ((h._createSpliceStream owner calls.up).1._createSpliceStream owner calls.down).2 =
          some down ∧
        h.openPair owner calls =
          ((((h._createSpliceStream owner calls.up).1._createSpliceStream owner
            calls.down).1.watchSplicedPair owner up down calls.now), some h.pairs.length) := by
  have hup := Heap.createSpliceStream_isSome (h := h) owner calls.up
  have hpairs := Heap.pairs_createSpliceStream (h := h) owner calls.up
  unfold Heap.openPair
  generalize h._createSpliceStream owner calls.up = r₁ at hup hpairs
  obtain ⟨h₁, up⟩ := r₁
  cases up with
  | none => exact .inl ⟨hup.symm, rfl⟩
  | some up =>
    have hdown := Heap.createSpliceStream_isSome (h := h₁) owner calls.down
    have hpairs₂ := Heap.pairs_createSpliceStream (h := h₁) owner calls.down
    refine .inr ?_
    dsimp only at hpairs ⊢
    generalize h₁._createSpliceStream owner calls.down = r₂ at hdown hpairs₂
    obtain ⟨h₂, down⟩ := r₂
    cases down with
    | none => exact .inl ⟨up, rfl, hdown.symm, rfl⟩
    | some down =>
      dsimp only at hpairs₂ ⊢
      exact .inr ⟨up, down, rfl, rfl, by rw [hpairs₂, hpairs]⟩

/-- The two streams of a pair that is made are fresh, and different. -/
theorem Owned.fresh_pair (ho : Owned h held) {owner up down : Nat} {calls : Calls}
    (hup : (h._createSpliceStream owner calls.up).2 = some up)
    (hdown : ((h._createSpliceStream owner calls.up).1._createSpliceStream owner calls.down).2 =
      some down) :
    let h₂ := ((h._createSpliceStream owner calls.up).1._createSpliceStream owner calls.down).1
    h₂.streams[up]? = some (.new owner) ∧ h₂.streams[down]? = some (.new owner) ∧ up ≠ down ∧
      ∀ {q : Nat} {x : Pair}, h₂.pairs[q]? = some x → ¬ x.Has up ∧ ¬ x.Has down := by
  have ho₁ := ho.createSpliceStream owner calls.up
  obtain ⟨hsup, -⟩ := Heap.createSpliceStream_some hup
  obtain ⟨hsdown, hlen⟩ := Heap.createSpliceStream_some hdown
  have hlt := (List.getElem?_eq_some_iff.mp hsup).1
  obtain ⟨xs, hxs⟩ :=
    (h._createSpliceStream owner calls.up).1.streams_createSpliceStream owner calls.down
  refine ⟨?_, hsdown, by omega, fun {q x} hx => ?_⟩
  · rw [hxs, List.getElem?_append_left hlt, hsup]
  · rw [Heap.pairs_createSpliceStream] at hx
    refine ⟨?_, ho₁.fresh hdown hx⟩
    rw [Heap.pairs_createSpliceStream] at hx
    exact ho.fresh hup hx

variable {h' : Heap} {owner : Nat} {calls : Calls} {made : Option Nat}

theorem openPair_none (ho : Owned h held) (hl : Live h none)
    (hn : h.openPair owner calls = (h', none)) : Owned h' held ∧ Live h' none := by
  have ho₁ := ho.createSpliceStream owner calls.up
  have hl₁ := hl.createSpliceStream ho owner calls.up
  rcases openPair_cases h owner calls with ⟨-, heq⟩ | ⟨up, -, -, heq⟩ | ⟨up, down, -, -, heq⟩
  · cases hn.symm.trans heq
    exact ⟨ho₁, hl₁⟩
  · cases hn.symm.trans heq
    exact ⟨ho₁.createSpliceStream owner calls.down, hl₁.createSpliceStream ho₁ owner calls.down⟩
  · cases hn.symm.trans heq

theorem openPair_some (ho : Owned h held) (hl : Live h none) (hheld : held owner = none)
    (hs : h.openPair owner calls = (h', some p)) :
    Owned h' (Function.update held owner (some p)) ∧ Live h' none := by
  have ho₁ := ho.createSpliceStream owner calls.up
  have hl₁ := hl.createSpliceStream ho owner calls.up
  rcases openPair_cases h owner calls with ⟨-, heq⟩ | ⟨up, -, -, heq⟩ | ⟨up, down, hup, hdown, heq⟩
  · cases hs.symm.trans heq
  · cases hs.symm.trans heq
  · obtain ⟨hsup, hsdown, hne, hfresh⟩ := ho.fresh_pair hup hdown
    cases hs.symm.trans heq
    have hw := (ho₁.createSpliceStream owner calls.down).watchSplicedPair hheld hsup hsdown hne
      hfresh calls.now
    rw [Heap.pairs_createSpliceStream, Heap.pairs_createSpliceStream] at hw
    exact ⟨hw, (hl₁.createSpliceStream ho₁ owner calls.down).watchSplicedPair hsup hsdown calls.now⟩

theorem made_of_openPair (hs : h.openPair owner calls = (h', some p)) : calls.up.made = true := by
  rcases openPair_cases h owner calls with ⟨-, heq⟩ | ⟨up, -, -, heq⟩ | ⟨up, down, hup, -, -⟩
  · cases hs.symm.trans heq
  · cases hs.symm.trans heq
  · rw [← Heap.createSpliceStream_isSome (h := h) owner calls.up, hup]
    rfl

/-- Where a throw of the second call is excluded, opening a pair leaves no orphan. -/
theorem orphan_of_openPair (hr : h.openPair owner calls = (h', made))
    (hc : calls.up.made = true → calls.down.made = true) (hi : Orphan o h' i) : Orphan o h i := by
  rcases openPair_cases h owner calls with
    ⟨hup, heq⟩ | ⟨up, hup, hdown, heq⟩ | ⟨up, down, hup, hdown, heq⟩
  · cases hr.symm.trans heq
    rcases orphan_createSpliceStream hi with hi | hi
    · exact hi
    · have := Heap.createSpliceStream_isSome (h := h) owner calls.up
      rw [hi, hup] at this
      cases this
  · have := Heap.createSpliceStream_isSome (h := h) owner calls.up
    rw [hup] at this
    rw [hc this.symm] at hdown
    cases hdown
  · cases hr.symm.trans heq
    obtain ⟨hi, hup', hdown'⟩ := orphan_of_watchSplicedPair hi
    rcases orphan_createSpliceStream hi with hi | hi
    · rcases orphan_createSpliceStream hi with hi | hi
      · exact hi
      · exact absurd (Option.some.inj (hi.symm.trans hup)) hup'
    · exact absurd (Option.some.inj (hi.symm.trans hdown)) hdown'

/-- Where the second call throws, the stream of the first one is an orphan. -/
theorem exists_orphan_openPair (ho : Owned h held) (hr : h.openPair owner calls = (h', made))
    (hup : calls.up.made = true) (hdown : calls.down.made = false) :
    made = none ∧ ∃ i, Orphan owner h' i := by
  rcases openPair_cases h owner calls with
    ⟨hup', -⟩ | ⟨up, hup', -, heq⟩ | ⟨up, down, -, hdown', -⟩
  · rw [hup'] at hup
    cases hup
  · cases hr.symm.trans heq
    obtain ⟨hsup, -⟩ := Heap.createSpliceStream_some hup'
    obtain ⟨xs, hxs⟩ :=
      (h._createSpliceStream owner calls.up).1.streams_createSpliceStream owner calls.down
    have hs : (_ ++ xs)[up]? = some (RawStream.new owner) :=
      (List.getElem?_append_left (List.getElem?_eq_some_iff.mp hsup).1).trans hsup
    refine ⟨rfl, up, ⟨_, (congrArg (·[up]?) hxs).trans hs, rfl, rfl⟩, fun {q x} hx => ?_⟩
    rw [Heap.pairs_createSpliceStream, Heap.pairs_createSpliceStream] at hx
    exact ho.fresh hup' hx
  · have := Heap.createSpliceStream_isSome (h := (h._createSpliceStream owner calls.up).1) owner
      calls.down
    rw [hdown', hdown] at this
    cases this

/-- Once the first call returns, some stream is not gone. -/
theorem exists_open_openPair (ho : Owned h held) (hr : h.openPair owner calls = (h', made))
    (hup : calls.up.made = true) : ∃ s ∈ h'.streams, s.gone = false := by
  cases hdown : calls.down.made with
  | false =>
    obtain ⟨-, i, ⟨s, hs, hg, -⟩, -⟩ := exists_orphan_openPair ho hr hup hdown
    exact ⟨s, List.mem_of_getElem? hs, hg⟩
  | true =>
    rcases openPair_cases h owner calls with
      ⟨hup', -⟩ | ⟨up, -, hdown', -⟩ | ⟨up, down, hup', hdown', heq⟩
    · rw [hup'] at hup
      cases hup
    · rw [hdown'] at hdown
      cases hdown
    · cases hr.symm.trans heq
      obtain ⟨hsup, -⟩ := ho.fresh_pair hup' hdown'
      exact ⟨_, List.mem_of_getElem? hsup, rfl⟩

end HyperDht.Private.Splicing
