import Mathlib.Data.List.Sort
import HyperDht.Lib.JsMap
import HyperDht.Lib.Runs

/-!
# The raw streams of a node

`RawStreamSet` keeps its live streams under the low bits of their random ids, and takes
one more bit when half of the low values are in use. A new id is drawn against the old
prefix and stored under the new one, and a stream that closes looks itself up under the
prefix of that time.

The streams that are not closed are kept beside the map, so that the two can be compared;
the code has no such list.
-/

namespace HyperDht.Dht

/-- `a & b` of two numbers: the low 32 bits of both, read as a signed number. -/
def bitAnd (a b : Nat) : Int := (BitVec.ofNat 32 a &&& BitVec.ofNat 32 b).toInt

/-- A stream, with the number under which it was created. -/
structure RawStream where
  serial : Nat
  id : Nat
  deriving DecidableEq, Repr

structure RawStreamSet where
  streamPrefix : Nat
  streams : JsMap Int RawStream
  live : List RawStream
  created : Nat

namespace RawStreamSet

def new : RawStreamSet := ⟨16 - 1, .empty, [], 0⟩

def low (s : RawStreamSet) (id : Nat) : Int := bitAnd id s.streamPrefix

/-- The loop of `add`, on the numbers it draws; `none` while it has found no free one. -/
def roll (s : RawStreamSet) (draws : List (Fin (2 ^ 32))) : Option (Fin (2 ^ 32)) :=
  draws.find? fun id => !s.streams.has (s.low id)

/-- One more bit, and every stream moved over. -/
def grow (s : RawStreamSet) : RawStreamSet :=
  let streamPrefix := 2 * s.streamPrefix + 1
  { s with
    streamPrefix
    streams := s.streams.values.foldl
      (fun next stream => next.set (bitAnd stream.id streamPrefix) stream) .empty }

/-- `add`; `ok` unless `createStream` throws. -/
def add (s : RawStreamSet) (draws : List (Fin (2 ^ 32))) (ok : Bool) : RawStreamSet :=
  match s.roll draws with
  | none => s
  | some id =>
    let s := if s.streamPrefix ≤ 2 * s.streams.size then s.grow else s
    if ok then
      let stream := ⟨s.created, id⟩
      { s with
        streams := s.streams.set (s.low id) stream
        live := s.live ++ [stream]
        created := s.created + 1 }
    else s

/-- A stream closes, once: `onclose`. -/
def close (s : RawStreamSet) (serial : Nat) : RawStreamSet :=
  match s.live.find? fun stream => stream.serial = serial with
  | none => s
  | some stream => { s with
      streams := s.streams.delete (s.low stream.id)
      live := s.live.filter fun other => other ≠ stream }

inductive Event where
  | add (draws : List (Fin (2 ^ 32))) (ok : Bool)
  | close (serial : Nat)

def step (s : RawStreamSet) : Event → RawStreamSet
  | .add draws ok => s.add draws ok
  | .close serial => s.close serial

end RawStreamSet

/-! ## Low bits -/

theorem toNat_and_mask {k : Nat} (hk : k ≤ 32) (a : Nat) :
    (BitVec.ofNat 32 a &&& BitVec.ofNat 32 (2 ^ k - 1)).toNat = a % 2 ^ k := by
  have hpow : 2 ^ k ≤ 2 ^ 32 := Nat.pow_le_pow_right (by decide) hk
  have hpos : 0 < 2 ^ k := Nat.two_pow_pos k
  rw [BitVec.toNat_and, BitVec.toNat_ofNat, BitVec.toNat_ofNat,
    Nat.mod_eq_of_lt (a := 2 ^ k - 1) (by omega),
    Nat.and_two_pow_sub_one_eq_mod, Nat.mod_mod_of_dvd _ (Nat.pow_dvd_pow 2 hk)]

/-- Two ids share a key where they share the low bits. -/
theorem bitAnd_mask_eq {k : Nat} (hk : k ≤ 32) {a b : Nat} :
    bitAnd a (2 ^ k - 1) = bitAnd b (2 ^ k - 1) ↔ a % 2 ^ k = b % 2 ^ k := by
  rw [← toNat_and_mask hk a, ← toNat_and_mask hk b]
  exact BitVec.toInt_inj.trans BitVec.toNat_inj.symm

/-- Below the sign bit the key is the value of the low bits. -/
theorem bitAnd_mask {k : Nat} (hk : k ≤ 31) (a : Nat) :
    bitAnd a (2 ^ k - 1) = ((a % 2 ^ k : Nat) : Int) := by
  have hpow : 2 ^ k ≤ 2 ^ 31 := Nat.pow_le_pow_right (by decide) hk
  have hlt : a % 2 ^ k < 2 ^ k := Nat.mod_lt a (Nat.two_pow_pos k)
  have hnat := toNat_and_mask (show k ≤ 32 by omega) a
  unfold bitAnd
  rw [BitVec.toInt_eq_toNat_of_lt (by omega), hnat]

namespace RawStreamSet

/-! ## The invariant -/

structure Exact (s : RawStreamSet) : Prop where
  keys : s.streams.entries = s.live.map fun stream => (s.low stream.id, stream)
  distinct : (s.live.map fun stream => s.low stream.id).Nodup
  grows : s.grow.streams.entries = s.live.map fun stream => (s.grow.low stream.id, stream)
  growsDistinct : (s.live.map fun stream => s.grow.low stream.id).Nodup
  closes : ∀ stream ∈ s.live, (s.close stream.serial).streams.entries =
    s.streams.entries.filter fun e => e.2 ≠ stream
  free : s.streamPrefix + 1 ≤
    2 * ((List.range (s.streamPrefix + 1)).filter fun v : Nat => !s.streams.has v).length
  rolls : ∃ id, s.roll [id] = some id

/-- The live streams are stored under `k` low bits, and take at most half of their values. -/
structure Kept (k : Nat) (s : RawStreamSet) : Prop where
  bits : k ≤ 31
  streamPrefix : s.streamPrefix = 2 ^ (k + 1) - 1
  half : s.live.length ≤ 2 ^ k
  keys : s.streams.entries = s.live.map fun stream => (s.low stream.id, stream)
  serials : (s.live.map RawStream.serial).Nodup
  numbered : ∀ stream ∈ s.live, stream.serial < s.created

variable {k : Nat} {s : RawStreamSet}

theorem kept_new : Kept 3 new where
  bits := by decide
  streamPrefix := rfl
  half := Nat.zero_le _
  keys := rfl
  serials := .nil
  numbered _ h := absurd h List.not_mem_nil

theorem Kept.size (h : s.Kept k) : s.streams.size = s.live.length := by
  unfold JsMap.size
  rw [h.keys, List.length_map]

theorem Kept.values (h : s.Kept k) : s.streams.values = s.live := by
  unfold JsMap.values
  rw [h.keys, List.map_map]
  exact List.map_id _

theorem Kept.distinct (h : s.Kept k) : (s.live.map fun stream => s.low stream.id).Nodup := by
  have hn := s.streams.nodup
  rw [h.keys, List.map_map] at hn
  exact hn

theorem Kept.low_of_grow (h : s.Kept k) (hk : k ≤ 30) {a b : Nat}
    (heq : s.grow.low a = s.grow.low b) : s.low a = s.low b := by
  have hgrow : s.grow.streamPrefix = 2 ^ (k + 1 + 1) - 1 := by
    show 2 * s.streamPrefix + 1 = _
    have hpos := Nat.two_pow_pos (k + 1)
    rw [h.streamPrefix, Nat.pow_succ 2 (k + 1)]
    omega
  unfold low at heq ⊢
  rw [hgrow, bitAnd_mask_eq (by omega)] at heq
  rw [h.streamPrefix, bitAnd_mask_eq (by omega)]
  have hdvd : 2 ^ (k + 1) ∣ 2 ^ (k + 1 + 1) := Nat.pow_dvd_pow 2 (by omega)
  rw [← Nat.mod_mod_of_dvd a hdvd, heq, Nat.mod_mod_of_dvd b hdvd]

theorem Kept.growsDistinct (h : s.Kept k) (hk : k ≤ 30) :
    (s.live.map fun stream => s.grow.low stream.id).Nodup := by
  have hn := List.pairwise_map.mp h.distinct
  exact List.pairwise_map.mpr (hn.imp fun hne heq => hne (h.low_of_grow hk heq))

/-- Growing loses and merges no stream. -/
theorem Kept.grows (h : s.Kept k) (hk : k ≤ 30) :
    s.grow.streams.entries = s.live.map fun stream => (s.grow.low stream.id, stream) := by
  unfold grow
  dsimp only
  rw [h.values]
  exact JsMap.entries_foldl_set (h.growsDistinct hk)

theorem Kept.grow (h : s.Kept k) (hk : k ≤ 30) : s.grow.Kept (k + 1) where
  bits := by omega
  streamPrefix := by
    show 2 * s.streamPrefix + 1 = _
    have hpos := Nat.two_pow_pos (k + 1)
    rw [h.streamPrefix, Nat.pow_succ 2 (k + 1)]
    omega
  half := h.half.trans (Nat.pow_le_pow_right (by decide) (Nat.le_succ k))
  keys := h.grows hk
  serials := h.serials
  numbered := h.numbered

theorem Kept.free_grow (h : s.Kept k) (hk : k ≤ 30) {id : Nat}
    (hfree : s.streams.get? (s.low id) = none) : s.grow.streams.get? (s.grow.low id) = none := by
  cases hget : s.grow.streams.get? (s.grow.low id) with
  | none => rfl
  | some stream =>
    have hmem := JsMap.mem_entries.mpr hget
    rw [h.grows hk] at hmem
    obtain ⟨stream', hlive, he⟩ := List.mem_map.mp hmem
    obtain ⟨hlow, rfl⟩ := Prod.mk.inj he
    have hentry : (s.low id, stream') ∈ s.streams.entries := by
      rw [h.keys, ← h.low_of_grow hk hlow]
      exact List.mem_map_of_mem hlive
    exact absurd (hfree.symm.trans (JsMap.mem_entries.mp hentry)) (by simp)

theorem Kept.store (h : s.Kept k) (hroom : s.live.length < 2 ^ k) {id : Nat}
    (hfree : s.streams.get? (s.low id) = none) :
    Kept k { s with
      streams := s.streams.set (s.low id) ⟨s.created, id⟩
      live := s.live ++ [⟨s.created, id⟩]
      created := s.created + 1 } where
  bits := h.bits
  streamPrefix := h.streamPrefix
  half := by
    show (s.live ++ [_]).length ≤ _
    rw [List.length_append, List.length_singleton]
    omega
  keys := by
    show (s.streams.set _ _).entries = (s.live ++ [_]).map _
    rw [JsMap.entries_set_new hfree, h.keys, List.map_append]
    rfl
  serials := by
    show ((s.live ++ [_]).map _).Nodup
    rw [List.map_append, List.nodup_append]
    refine ⟨h.serials, List.nodup_singleton _, ?_⟩
    rintro serial hserial _ hnew rfl
    obtain ⟨stream, hlive, rfl⟩ := List.mem_map.mp hserial
    rw [List.map_singleton, List.mem_singleton] at hnew
    exact absurd (h.numbered stream hlive) (by rw [hnew]; exact Nat.lt_irrefl _)
  numbered := by
    intro stream hmem
    show stream.serial < s.created + 1
    rcases List.mem_append.mp hmem with hmem | hmem
    · exact Nat.lt_succ_of_lt (h.numbered stream hmem)
    · rw [List.mem_singleton.mp hmem]
      exact Nat.lt_succ_self _

theorem free_of_roll {draws : List (Fin (2 ^ 32))} {id : Fin (2 ^ 32)}
    (hr : s.roll draws = some id) : s.streams.get? (s.low id) = none := by
  have hfound := List.find?_some hr
  unfold JsMap.has at hfound
  simpa using hfound

theorem Kept.add (h : s.Kept k) (hk : k ≤ 30) (hlive : s.live.length < 2 ^ 30)
    (draws : List (Fin (2 ^ 32))) (ok : Bool) : ∃ k' ≤ 30, (s.add draws ok).Kept k' := by
  unfold RawStreamSet.add
  cases hr : s.roll draws with
  | none => exact ⟨k, hk, h⟩
  | some id =>
    have hfree := free_of_roll hr
    have hpos := Nat.two_pow_pos k
    have hsucc : 2 ^ (k + 1) = 2 * 2 ^ k := Nat.pow_succ' ..
    have hhalf := h.half
    dsimp only
    rw [h.size]
    by_cases hfull : s.streamPrefix ≤ 2 * s.live.length
    · rw [if_pos hfull]
      rw [h.streamPrefix] at hfull
      -- all of the half is in use, so there is room for one more bit
      have hlt : k < 30 := by
        by_contra hge
        have hle : 2 ^ 30 ≤ 2 ^ k := Nat.pow_le_pow_right (by decide) (by omega)
        omega
      have hgrow := h.grow hk
      cases ok with
      | false => exact ⟨k + 1, hlt, hgrow⟩
      | true =>
        refine ⟨k + 1, hlt, hgrow.store ?_ (h.free_grow hk hfree)⟩
        show s.live.length < 2 ^ (k + 1)
        omega
    · rw [if_neg hfull]
      rw [h.streamPrefix] at hfull
      cases ok with
      | false => exact ⟨k, hk, h⟩
      | true => exact ⟨k, hk, h.store (by omega) hfree⟩

theorem Kept.find (h : s.Kept k) {stream : RawStream} (hlive : stream ∈ s.live) :
    s.live.find? (fun other => other.serial = stream.serial) = some stream := by
  cases hfind : s.live.find? (fun other => other.serial = stream.serial) with
  | none => exact absurd (List.find?_eq_none.mp hfind stream hlive) (by simp)
  | some other =>
    have hserial : other.serial = stream.serial := by simpa using List.find?_some hfind
    rw [List.inj_on_of_nodup_map h.serials (List.mem_of_find?_eq_some hfind) hlive hserial]

theorem Kept.delete (h : s.Kept k) {stream : RawStream} (hlive : stream ∈ s.live) :
    (s.streams.delete (s.low stream.id)).entries =
      s.streams.entries.filter fun e => e.2 ≠ stream := by
  rw [JsMap.entries_delete]
  refine List.filter_congr fun e he => ?_
  rw [h.keys] at he
  obtain ⟨other, hother, rfl⟩ := List.mem_map.mp he
  have hiff : s.low other.id = s.low stream.id ↔ other = stream :=
    ⟨fun heq => List.inj_on_of_nodup_map h.distinct hother hlive heq, fun heq => by rw [heq]⟩
  simp only [ne_eq, hiff]

theorem Kept.closes (h : s.Kept k) {stream : RawStream} (hlive : stream ∈ s.live) :
    (s.close stream.serial).streams.entries = s.streams.entries.filter fun e => e.2 ≠ stream := by
  unfold RawStreamSet.close
  rw [h.find hlive]
  exact h.delete hlive

theorem Kept.close (h : s.Kept k) (serial : Nat) : (s.close serial).Kept k := by
  unfold RawStreamSet.close
  cases hfind : s.live.find? (fun stream => stream.serial = serial) with
  | none => exact h
  | some stream =>
    have hlive := List.mem_of_find?_eq_some hfind
    have hsub : (s.live.filter fun other => other ≠ stream).Sublist s.live := List.filter_sublist
    refine ⟨h.bits, h.streamPrefix, hsub.length_le.trans h.half, ?_, h.serials.sublist (hsub.map _),
      fun other hother => h.numbered other (hsub.subset hother)⟩
    show (s.streams.delete (s.low stream.id)).entries = _
    rw [h.delete hlive, h.keys, List.filter_map]
    rfl

theorem Kept.free (h : s.Kept k) : s.streamPrefix + 1 ≤
    2 * ((List.range (s.streamPrefix + 1)).filter fun v : Nat => !s.streams.has v).length := by
  have hused : ((List.range (s.streamPrefix + 1)).filter fun v : Nat => s.streams.has v).length ≤
      s.streams.size := by
    have hn : (((List.range (s.streamPrefix + 1)).filter fun v : Nat => s.streams.has v).map
        fun v : Nat => (v : Int)).Nodup :=
      List.Nodup.map (fun a b => Int.ofNat.inj) (List.nodup_range.filter _)
    have hsub : (((List.range (s.streamPrefix + 1)).filter fun v : Nat => s.streams.has v).map
        fun v : Nat => (v : Int)) ⊆ s.streams.entries.map Prod.fst := by
      intro v hv
      obtain ⟨n, hn, rfl⟩ := List.mem_map.mp hv
      obtain ⟨stream, hget⟩ := Option.isSome_iff_exists.mp (List.mem_filter.mp hn).2
      exact List.mem_map_of_mem (JsMap.mem_entries.mpr hget)
    have hlen := (List.subperm_of_subset hn hsub).length_le
    rwa [List.length_map, List.length_map] at hlen
  have hsplit := List.length_eq_length_filter_add (l := List.range (s.streamPrefix + 1))
    fun v : Nat => s.streams.has v
  have hsucc : 2 ^ (k + 1) = 2 * 2 ^ k := Nat.pow_succ' ..
  have hpos := Nat.two_pow_pos k
  have hhalf := h.half
  have hprefix := h.streamPrefix
  rw [List.length_range] at hsplit
  rw [h.size] at hused
  omega

theorem Kept.rolls (h : s.Kept k) (hk : k ≤ 30) : ∃ id, s.roll [id] = some id := by
  have hfree := h.free
  have hlt :
      0 < ((List.range (s.streamPrefix + 1)).filter fun v : Nat => !s.streams.has v).length := by
    omega
  obtain ⟨v, hv⟩ := List.length_pos_iff_exists_mem.mp hlt
  obtain ⟨hrange, hno⟩ := List.mem_filter.mp hv
  have hv : v < 2 ^ (k + 1) := by
    have hpos := Nat.two_pow_pos (k + 1)
    have hle := List.mem_range.mp hrange
    rw [h.streamPrefix] at hle
    omega
  have hpow : 2 ^ (k + 1) ≤ 2 ^ 31 := Nat.pow_le_pow_right (by decide) (by omega)
  have hlow : s.low v = v := by
    unfold low
    rw [h.streamPrefix, bitAnd_mask (by omega), Nat.mod_eq_of_lt hv]
  refine ⟨⟨v, by omega⟩, List.find?_cons_of_pos ?_⟩
  show (!s.streams.has (s.low v)) = true
  rw [hlow]
  exact hno

theorem Kept.exact (h : s.Kept k) (hk : k ≤ 30) : s.Exact where
  keys := h.keys
  distinct := h.distinct
  grows := h.grows hk
  growsDistinct := h.growsDistinct hk
  closes _ hlive := h.closes hlive
  free := h.free
  rolls := h.rolls hk

/-- **Every live stream is kept under a unique low-bit key**, in every state of a run with
fewer than `2 ^ 30` live streams before each event. -/
theorem streams_exact (events : List Event)
    (hlive : AllMeet step (fun s _ => s.live.length < 2 ^ 30) new events) :
    (events.foldl step new).Exact := by
  have hkept : ∃ k ≤ 30, (events.foldl step new).Kept k := by
    refine AllMeet.inv (I := fun s => ∃ k ≤ 30, s.Kept k) ⟨3, by decide, kept_new⟩ ?_ hlive
    rintro s ev ⟨k, hk, h⟩ hroom
    cases ev with
    | add draws ok => exact h.add hk hroom draws ok
    | close serial => exact ⟨k, hk, h.close serial⟩
  obtain ⟨k, hk, h⟩ := hkept
  exact h.exact hk

/-- Nine streams, for the last of which the set grows, and the end of the first; id 16 is
drawn for the second stream, but its low bits are in use. -/
theorem streams_exact_grown :
    let events : List Event := (List.range 9).map (fun i => .add [16, Fin.ofNat _ (17 * i)] true) ++
      [.close 0]
    AllMeet step (fun s _ => s.live.length < 2 ^ 30) new events ∧ (events.foldl step new).Exact ∧
      (events.foldl step new).streamPrefix = 31 ∧
      (events.foldl step new).streams.keys = [17, 2, 19, 4, 21, 6, 23, 8] := by
  intro events
  have hlive : AllMeet step (fun s _ => s.live.length < 2 ^ 30) new events := by decide +kernel
  exact ⟨hlive, streams_exact events hlive, by decide +kernel, by decide +kernel⟩

end RawStreamSet

end HyperDht.Dht
