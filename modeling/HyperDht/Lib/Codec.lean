import HyperDht.Lib.Buffer
import Mathlib.Tactic.IntervalCases

/-!
# Codecs in three passes

A codec of the `compact-encoding` kind has three functions over one state: `preencode`
moves the end to reserve bytes, `encode` writes at the start of the unwritten part, and
`decode` reads between start and end. Each is a `Coder`, a computation that may throw.

What a pass does is one of three judgments: it reserves a number of bytes (`Reserves`),
writes given bytes (`Writes`), or reads given bytes as a value (`Reads`). Each judgment
has a rule for every way the passes are put together, and a codec is exact on a value
(`Codec.Exact`) where the three meet in the same bytes (`Codec.exact_iff`).
-/

namespace HyperDht

/-- The `{ start, end, buffer }` of a pass. -/
structure CodecState where
  start : Nat
  stop : Nat
  buffer : List UInt8
deriving DecidableEq

/-- One pass over the state; `none` is an exception. -/
abbrev Coder (α : Type) : Type := StateT CodecState Option α

structure Codec (α β : Type) where
  preencode : α → Coder Unit
  encode : α → Coder Unit
  decode : Coder β

namespace CodecState

/-- The bytes a decoder has before it. -/
def unread (s : CodecState) : List UInt8 := (s.buffer.take s.stop).drop s.start

def reserve (s : CodecState) (n : Nat) : CodecState := { s with stop := s.stop + n }

def skip (s : CodecState) (n : Nat) : CodecState := { s with start := s.start + n }

/-- The state after the bytes are written, nothing else touched. -/
def write (s : CodecState) (bytes : List UInt8) : CodecState :=
  { s with
    start := s.start + bytes.length
    buffer := s.buffer.take s.start ++ bytes ++ s.buffer.drop (s.start + bytes.length) }

/-- The buffer has room for `n` bytes at the start. -/
def Room (s : CodecState) (n : Nat) : Prop := s.start + n ≤ s.buffer.length

@[simp] theorem reserve_zero (s : CodecState) : s.reserve 0 = s := rfl

theorem reserve_reserve (s : CodecState) (m n : Nat) :
    (s.reserve m).reserve n = s.reserve (m + n) := by
  unfold reserve
  rw [Nat.add_assoc]

@[simp] theorem skip_zero (s : CodecState) : s.skip 0 = s := rfl

theorem skip_skip (s : CodecState) (m n : Nat) : (s.skip m).skip n = s.skip (m + n) := by
  unfold skip
  rw [Nat.add_assoc]

theorem unread_skip (s : CodecState) (n : Nat) : (s.skip n).unread = s.unread.drop n := by
  unfold unread skip
  rw [List.drop_drop]

theorem write_nil (s : CodecState) : s.write [] = s := by
  unfold write
  simp

theorem write_write {s : CodecState} {a b : List UInt8} (h : s.Room (a ++ b).length) :
    (s.write a).write b = s.write (a ++ b) := by
  unfold Room at h
  rw [List.length_append] at h
  have hlen : (s.buffer.take s.start ++ a).length = s.start + a.length := by
    rw [List.length_append, List.length_take]
    omega
  unfold write
  dsimp only
  rw [List.take_left' hlen, ← List.drop_drop, List.drop_left' hlen, List.drop_drop,
    List.length_append, Nat.add_assoc, List.append_assoc _ a b]

theorem Room.write {s : CodecState} {a b : List UInt8} (h : s.Room (a ++ b).length) :
    (s.write a).Room b.length := by
  unfold Room CodecState.write at *
  simp only [List.length_append, List.length_take, List.length_drop] at h ⊢
  omega

theorem Room.mono {s : CodecState} {m n : Nat} (h : s.Room n) (hm : m ≤ n) : s.Room m := by
  unfold Room at *
  omega

end CodecState

/-! ## The judgments -/

/-- The pass reserves `n` bytes and does nothing else. -/
def Reserves (f : Coder Unit) (n : Nat) : Prop := ∀ s : CodecState, f.run s = some ((), s.reserve n)

/-- Where they fit, the pass writes the bytes and nothing else. -/
def Writes (f : Coder Unit) (bytes : List UInt8) : Prop :=
  ∀ s : CodecState, s.Room bytes.length → f.run s = some ((), s.write bytes)

/-- Before the bytes the pass returns the value and goes past them. -/
def Reads {α : Type} (f : Coder α) (bytes : List UInt8) (a : α) : Prop :=
  ∀ s : CodecState, bytes <+: s.unread → f.run s = some (a, s.skip bytes.length)

variable {α β γ : Type}

theorem Reserves.nothing : Reserves (pure ()) 0 := fun _ => rfl

theorem Reserves.seq {f g : Coder Unit} {m n : Nat} (hf : Reserves f m) (hg : Reserves g n) :
    Reserves (do f; g) (m + n) := by
  intro s
  rw [StateT.run_bind, hf s]
  exact (hg _).trans (congrArg some (Prod.ext rfl (s.reserve_reserve m n)))

theorem Writes.nothing : Writes (pure ()) [] := fun s _ =>
  congrArg some (Prod.ext rfl s.write_nil.symm)

theorem Writes.seq {f g : Coder Unit} {a b : List UInt8} (hf : Writes f a) (hg : Writes g b) :
    Writes (do f; g) (a ++ b) := by
  intro s h
  have ha : s.Room a.length := h.mono (by rw [List.length_append]; omega)
  rw [StateT.run_bind, hf s ha]
  exact (hg _ h.write).trans (congrArg some (Prod.ext rfl (CodecState.write_write h)))

theorem Reads.value (a : α) : Reads (pure a) [] a := fun _ _ => rfl

theorem Reads.bind {f : Coder α} {g : α → Coder β} {a b : List UInt8} {x : α} {y : β}
    (hf : Reads f a x) (hg : Reads (g x) b y) : Reads (f >>= g) (a ++ b) y := by
  intro s h
  have hb : b <+: (s.skip a.length).unread := by
    obtain ⟨rest, hrest⟩ := h
    rw [CodecState.unread_skip, ← hrest, List.append_assoc, List.drop_left]
    exact List.prefix_append b rest
  rw [StateT.run_bind, hf s ((List.prefix_append a b).trans h)]
  refine (hg _ hb).trans (congrArg some (Prod.ext rfl ?_))
  rw [CodecState.skip_skip, List.length_append]

theorem Reads.as {f : Coder α} {bytes : List UInt8} {a b : α} (h : Reads f bytes a) (he : a = b) :
    Reads f bytes b := he ▸ h

theorem Reads.done {f : Coder α} {g : α → β} {a : List UInt8} {x : α} (hf : Reads f a x) :
    Reads (f >>= fun x => pure (g x)) a (g x) := by
  have h := hf.bind (g := fun x => pure (g x)) (Reads.value (g x))
  rwa [List.append_nil] at h

/-! ## A pass that has ended -/

theorem run_bind_eq_some {f : Coder α} {g : α → Coder β} {s s' : CodecState} {b : β}
    (h : (f >>= g).run s = some (b, s')) :
    ∃ a t, f.run s = some (a, t) ∧ (g a).run t = some (b, s') := by
  rw [StateT.run_bind] at h
  obtain ⟨⟨a, t⟩, hf, hg⟩ := Option.bind_eq_some_iff.mp h
  exact ⟨a, t, hf, hg⟩

theorem run_pure_eq_some {a b : α} {s s' : CodecState}
    (h : (pure a : Coder α).run s = some (b, s')) : a = b :=
  (Prod.ext_iff.mp (Option.some.inj h)).1

/-! ## Fields that may be missing -/

/-- `if (o) f(o)`. -/
def whenSome (o : Option α) (f : α → Coder Unit) : Coder Unit :=
  match o with
  | some a => f a
  | none => pure ()

/-- `flag ? f() : null`. -/
def ifSet (flag : Bool) (f : Coder α) : Coder (Option α) :=
  if flag then do
    let a ← f
    pure (some a)
  else pure none

/-- The bytes of a field that may be missing. -/
def optional (f : α → List UInt8) (o : Option α) : List UInt8 := o.elim [] f

@[simp] theorem optional_none (f : α → List UInt8) : optional f none = [] := rfl

@[simp] theorem optional_some (f : α → List UInt8) (a : α) : optional f (some a) = f a := rfl

theorem reserves_whenSome {f : α → Coder Unit} {size : α → List UInt8}
    (h : ∀ a, Reserves (f a) (size a).length) (o : Option α) :
    Reserves (whenSome o f) (optional size o).length := by
  cases o with
  | none => exact .nothing
  | some a => exact h a

theorem writes_whenSome {f : α → Coder Unit} {bytes : α → List UInt8}
    (h : ∀ a, Writes (f a) (bytes a)) (o : Option α) :
    Writes (whenSome o f) (optional bytes o) := by
  cases o with
  | none => exact .nothing
  | some a => exact h a

theorem reads_ifSet_map {f : Coder β} {bytes : α → List UInt8} {value : α → β} {flag : Bool}
    {o : Option α} (h : ∀ a, Reads f (bytes a) (value a)) (hflag : flag = o.isSome) :
    Reads (ifSet flag f) (optional bytes o) (o.map value) := by
  subst hflag
  cases o with
  | none => exact .value none
  | some a => exact (h a).done

theorem reads_ifSet {f : Coder α} {bytes : α → List UInt8} {flag : Bool} {o : Option α}
    (h : ∀ a, Reads f (bytes a) a) (hflag : flag = o.isSome) :
    Reads (ifSet flag f) (optional bytes o) o := by
  have hread := reads_ifSet_map h hflag
  rwa [Option.map_id'] at hread

/-! ## Single bytes and blocks -/

/-- `state.end += n`. -/
def grow (n : Nat) : Coder Unit := modify fun s => s.reserve n

/-- `state.buffer[state.start++] = b`. What a store outside the buffer does is left to the
library: `Writes` asks for room. -/
def poke (b : UInt8) : Coder Unit :=
  modify fun s => { s with start := s.start + 1, buffer := s.buffer.set s.start b }

def pokes : List UInt8 → Coder Unit
  | [] => pure ()
  | b :: bytes => do
    poke b
    pokes bytes

/-- `state.buffer.set(bytes, state.start)`, which throws where they do not fit. -/
def put (bytes : List UInt8) : Coder Unit := fun s => do
  let buffer ← setBytes s.buffer bytes s.start
  some ((), { s with start := s.start + bytes.length, buffer })

/-- The next `n` bytes; a decoder throws where there are fewer. -/
def take (n : Nat) : Coder { bytes : List UInt8 // bytes.length = n } := fun s =>
  if h : n ≤ s.unread.length then
    some (⟨s.unread.take n, List.length_take_of_le h⟩, s.skip n)
  else none

theorem reserves_grow (n : Nat) : Reserves (grow n) n := fun _ => rfl

theorem writes_poke (b : UInt8) : Writes (poke b) [b] := by
  intro s h
  have hset : s.buffer.set s.start b =
      s.buffer.take s.start ++ [b] ++ s.buffer.drop (s.start + 1) := by
    unfold CodecState.Room at h
    rw [List.length_singleton] at h
    rw [List.set_eq_take_append_cons_drop, if_pos (by omega), List.append_assoc]
    rfl
  show some ((), { s with start := s.start + 1, buffer := s.buffer.set s.start b }) = _
  rw [hset]
  rfl

theorem writes_pokes : ∀ bytes : List UInt8, Writes (pokes bytes) bytes
  | [] => .nothing
  | b :: bytes => (writes_poke b).seq (writes_pokes bytes)

theorem writes_put (bytes : List UInt8) : Writes (put bytes) bytes := by
  intro s h
  show Option.bind (setBytes s.buffer bytes s.start) _ = _
  have hset : setBytes s.buffer bytes s.start =
      some (s.buffer.take s.start ++ bytes ++ s.buffer.drop (s.start + bytes.length)) := if_pos h
  rw [hset]
  rfl

theorem reads_take {n : Nat} (bytes : { bytes : List UInt8 // bytes.length = n }) :
    Reads (take n) bytes.val bytes := by
  intro s h
  have hlen : n ≤ s.unread.length := bytes.property ▸ h.length_le
  show (if h : n ≤ s.unread.length then _ else none) = _
  rw [dif_pos hlen]
  obtain ⟨rest, hrest⟩ := h
  have htake : s.unread.take n = bytes.val := by
    rw [← hrest]
    exact List.take_left' bytes.property
  have hval : (⟨s.unread.take n, List.length_take_of_le hlen⟩ :
      { bytes : List UInt8 // bytes.length = n }) = bytes := Subtype.ext htake
  rw [hval, bytes.property]

/-! ## A codec and a value -/

namespace Codec

/-- On the value, `preencode` reserves the bytes, `encode` writes just these, and
`decode` reads them back as `b`. -/
structure ExactAs (c : Codec α β) (a : α) (b : β) (bytes : List UInt8) : Prop where
  reserves : Reserves (c.preencode a) bytes.length
  writes : Writes (c.encode a) bytes
  reads : Reads c.decode bytes b

/-- The encoder of `a` stays in what it reserved, fills it, and `b` is decoded again. -/
def Exact (c : Codec α β) (a : α) (b : β) : Prop := ∃ bytes, c.ExactAs a b bytes

/-- A pass writes one number of bytes only. -/
theorem length_unique {f : Coder Unit} {a b : List UInt8} (ha : Writes f a) (hb : Writes f b) :
    a.length = b.length := by
  let s : CodecState := ⟨0, 0, List.replicate (a.length + b.length) 0⟩
  have hroom : s.buffer.length = a.length + b.length := List.length_replicate
  have h₁ := ha s (by unfold CodecState.Room; rw [hroom]; show 0 + _ ≤ _; omega)
  have h₂ := hb s (by unfold CodecState.Room; rw [hroom]; show 0 + _ ≤ _; omega)
  have he := congrArg CodecState.start (Prod.ext_iff.mp (Option.some.inj (h₁.symm.trans h₂))).2
  unfold CodecState.write at he
  dsimp only at he
  omega

/-- What is written and read is known: only the reserved size is left to compare. -/
theorem exact_iff {c : Codec α β} {a : α} {b : β} {bytes : List UInt8} {n : Nat}
    (hr : Reserves (c.preencode a) n) (hw : Writes (c.encode a) bytes)
    (hd : Reads c.decode bytes b) : c.Exact a b ↔ bytes.length = n := by
  constructor
  · rintro ⟨other, h⟩
    have hlen := length_unique h.writes hw
    have hsame := congrArg CodecState.stop
      (Prod.ext_iff.mp (Option.some.inj ((h.reserves ⟨0, 0, []⟩).symm.trans (hr ⟨0, 0, []⟩)))).2
    unfold CodecState.reserve at hsame
    dsimp only at hsame
    omega
  · rintro rfl
    exact ⟨bytes, hr, hw, hd⟩

/-- `encode(codec, a)` of the library: reserve, allocate with whatever the memory held, write. -/
def run (c : Codec α β) (alloc : (n : Nat) → { bytes : List UInt8 // bytes.length = n }) (a : α) :
    Option (List UInt8) := do
  let ((), s) ← (c.preencode a).run ⟨0, 0, []⟩
  let ((), s) ← (c.encode a).run { s with buffer := (alloc s.stop).val }
  some s.buffer

/-- An encoder that writes what it reserved gives just that, whatever the memory held before. -/
theorem run_eq {c : Codec α β} {a : α} {bytes : List UInt8}
    (hr : Reserves (c.preencode a) bytes.length) (hw : Writes (c.encode a) bytes)
    (alloc : (n : Nat) → { bytes : List UInt8 // bytes.length = n }) :
    c.run alloc a = some bytes := by
  unfold Codec.run
  rw [hr]
  have hlen := (alloc (0 + bytes.length)).property
  have hroom : (⟨0, 0 + bytes.length, (alloc (0 + bytes.length)).val⟩ : CodecState).Room
      bytes.length := by
    unfold CodecState.Room
    dsimp only
    omega
  have hwrite := hw _ hroom
  show Option.bind (StateT.run _ _) _ = _
  unfold CodecState.reserve
  dsimp only
  rw [hwrite]
  unfold CodecState.write
  dsimp only
  show some _ = some _
  rw [List.take_zero, List.nil_append, List.drop_eq_nil_of_le (by omega), List.append_nil]

theorem ExactAs.run {c : Codec α β} {a : α} {b : β} {bytes : List UInt8}
    (h : c.ExactAs a b bytes) (alloc : (n : Nat) → { bytes : List UInt8 // bytes.length = n }) :
    c.run alloc a = some bytes := run_eq h.reserves h.writes alloc

end Codec

end HyperDht
