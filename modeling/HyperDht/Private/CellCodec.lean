import HyperDht.Private.Logical
import HyperDht.Private.OrderedDelivery

/-!
# Sealing cells

`CellCodec.seal` (here `sealCell`) and the reusable `sealInto` of one link side, driven by one
`SenderCounter`. Both run a padding hook before they take a counter, and the
hook may call them again, so a call is a tree of calls (`SealCall`). Every
counter taken reaches the AEAD before any other code runs; `log` records the
AEAD calls and `cells` the cells handed out. The hash and the AEAD are
parameters (`Crypto`); the AEAD may throw or return output of the wrong size.
-/

namespace HyperDht.Private

abbrev Bytes := List UInt8

def cellBodySize : Nat := 1148
def aeadTagBytes : Nat := 16
def protocolVersion : UInt8 := 0
def cellHeaderDomain : Bytes := "hyperdht-private-routes/cell/header/v0".toUTF8.toList

def uint64 (value : Int) : Bool := 0 ≤ value && value.toNat < 2 ^ 64

/-- The bytes of `value`, most significant first. -/
def writeUintBE : Nat → Nat → Bytes
  | 0, _ => []
  | n + 1, value => writeUintBE n (value / 256) ++ [UInt8.ofNat value]

structure AeadCall where
  key : Bytes
  noncePrefix : Bytes
  counter : Nat
  associatedData : Bytes
  plaintext : Bytes
  deriving DecidableEq, Repr

/-- The crypto functions: `none` is an AEAD that throws. -/
structure Crypto where
  aeadSeal : AeadCall → Option Bytes
  genericHash : Bytes → Bytes → Bytes

inductive Direction where
  | forward
  | reverse
  deriving DecidableEq, Repr

inductive CellClass where
  | control
  | stream
  | datagram
  deriving DecidableEq, Repr

/-- The fixed inputs of a seal, as `seal` and `createSealer` check them; an
unknown class or direction is `none`. -/
structure SealOptions where
  key : Bytes
  noncePrefix : Bytes
  cellClass : Option CellClass
  direction : Option Direction
  epoch : Int
  circuitId : Bytes
  deriving DecidableEq, Repr

namespace SealOptions

def valid (o : SealOptions) : Bool :=
  o.key.length == 32 && o.noncePrefix.length == 16 && o.cellClass.isSome && o.direction.isSome &&
    0 ≤ o.epoch && o.epoch < 2 ^ 64 && o.circuitId.length == 16

def classByte (o : SealOptions) : UInt8 :=
  match o.cellClass with
  | some .stream => 1
  | some .datagram => 2
  | _ => 0

def directionByte (o : SealOptions) : UInt8 :=
  match o.direction with
  | some .reverse => 1
  | _ => 0

def header (o : SealOptions) (counter : Nat) : Bytes :=
  [protocolVersion, o.classByte, o.directionByte, 0] ++ writeUintBE 8 o.epoch.toNat ++
    o.circuitId ++ writeUintBE 8 counter

def aeadCall (o : SealOptions) (counter : Nat) (payload padding : Bytes) : AeadCall where
  key := o.key
  noncePrefix := o.noncePrefix
  counter := counter
  associatedData := cellHeaderDomain ++ o.header counter
  plaintext := writeUintBE 2 payload.length ++ payload ++ padding

end SealOptions

structure Cell where
  counter : Nat
  payload : Bytes
  packet : Bytes
  deriving DecidableEq, Repr

inductive SealError where
  | cellInvalid
  | counterExhausted
  deriving DecidableEq, Repr

/-- A reusable sealer: its snapshot of the options, and whether it is in use. -/
structure Sealer where
  options : SealOptions
  destroyed : Bool
  busy : Bool

/-- The sealing side of one link, with the AEAD calls and the cells so far. -/
structure Sealing where
  sender : SenderCounter
  sealer : Sealer
  log : List AeadCall
  cells : List Cell

/-- The output of a `sealInto`: whether it is ordinary storage that aliases none
of its inputs, its length, and the offset if that is a safe integer. -/
structure Output where
  safe : Bool
  size : Nat
  offset : Option Int
  deriving DecidableEq, Repr

/-- A payload: its bytes when it is a buffer, and whether it aliases scratch. -/
structure SealPayload where
  bytes : Option Bytes
  aliased : Bool
  deriving DecidableEq, Repr

/-- What a padding hook gives: its padding, `none` when it throws, and whether it
detached the sealer's scratch or the output. -/
structure Padding where
  bytes : Option Bytes
  scratchGone : Bool
  outputGone : Bool
  deriving DecidableEq, Repr

/-- A call on the sealing side, with the calls its padding hook makes. -/
inductive SealCall where
  | sealCell (options : SealOptions) (payload : SealPayload) (hook : List SealCall)
    (padding : Padding)
  | sealInto (output : Output) (payload : SealPayload) (hook : List SealCall)
    (padding : Padding)
  | destroySealer
  | destroySender

namespace Sealing

def setBusy (s : Sealing) (busy : Bool) : Sealing := { s with sealer := { s.sealer with busy } }

def destroySealer (s : Sealing) : Sealing := { s with sealer := { s.sealer with destroyed := true } }

def destroySender (s : Sealing) : Sealing := { s with sender := s.sender.destroy }

/-- The end of a failed `sealInto`. -/
def abort (s : Sealing) (e : SealError) : Sealing × Except SealError Cell :=
  (s.destroySealer.setBusy false, .error e)

/-- The cell that an AEAD call gives. -/
def sealedCell (c : Crypto) (o : SealOptions) (aead : AeadCall) (payload : Bytes) :
    Except SealError Cell :=
  match c.aeadSeal aead with
  | none => .error .cellInvalid
  | some ciphertext =>
    if ciphertext.length ≠ cellBodySize + aeadTagBytes then .error .cellInvalid
    else .ok ⟨aead.counter, payload, o.header aead.counter ++ ciphertext⟩

/-- Take a counter and call the AEAD with it; the cell is not yet handed out. -/
def sealNext (c : Crypto) (s : Sealing) (o : SealOptions) (payload padding : Bytes) :
    Sealing × Except SealError Cell :=
  match s.sender.next with
  | (sender, .error _) => ({ s with sender }, .error .counterExhausted)
  | (sender, .ok counter) =>
    let aead := o.aeadCall counter payload padding
    ({ s with sender, log := s.log ++ [aead] }, sealedCell c o aead payload)

def emit (s : Sealing) (cell : Cell) : Sealing × Except SealError Cell :=
  ({ s with cells := s.cells ++ [cell] }, .ok cell)

/-- `seal` from its counter on. -/
def sealWith (c : Crypto) (s : Sealing) (o : SealOptions) (payload padding : Bytes) :
    Sealing × Except SealError Cell :=
  match s.sealNext c o payload padding with
  | (s, .error e) => (s, .error e)
  | (s, .ok cell) => s.emit cell

/-- `sealInto` from its counter on. -/
def sealIntoWith (c : Crypto) (s : Sealing) (payload padding : Bytes) (outputGone : Bool) :
    Sealing × Except SealError Cell :=
  match s.sealNext c s.sealer.options payload padding with
  | (s, .error e) => s.abort e
  | (s, .ok cell) => if outputGone then s.abort .cellInvalid else (s.setBusy false).emit cell

/-- The checks of the output and the payload in `sealInto`. -/
def fits (output : Output) (payload : SealPayload) : Bool :=
  output.safe && !payload.aliased &&
    match output.offset, payload.bytes with
    | some offset, some bytes =>
      0 ≤ offset && (cellSize : Int) ≤ output.size - offset && bytes.length ≤ maxCellPayload
    | _, _ => false

mutual

def call (c : Crypto) (s : Sealing) : SealCall → Sealing × Except SealError Cell
  | .sealCell options payload hook padding =>
    match payload.bytes with
    | none => (s, .error .cellInvalid)
    | some bytes =>
      if options.valid = false ∨ maxCellPayload < bytes.length then (s, .error .cellInvalid)
      else if bytes.length = maxCellPayload then s.sealWith c options bytes []
      else
        let s := s.calls c hook
        match padding.bytes with
        | none => (s, .error .cellInvalid)
        | some padding =>
          if padding.length ≠ maxCellPayload - bytes.length then (s, .error .cellInvalid)
          else s.sealWith c options bytes padding
  | .sealInto output payload hook padding =>
    let reentrant := s.sealer.busy
    let s := s.setBusy true
    if s.sealer.destroyed ∨ reentrant then s.abort .cellInvalid
    else if fits output payload = false then s.abort .cellInvalid
    else
      let bytes := payload.bytes.getD []
      if bytes.length = maxCellPayload then s.sealIntoWith c bytes [] false
      else
        let s := s.calls c hook
        match padding.bytes with
        | none => s.abort .cellInvalid
        | some filled =>
          if s.sealer.destroyed ∨ padding.scratchGone then s.abort .cellInvalid
          else
            s.sealIntoWith c bytes (filled.take (maxCellPayload - bytes.length)) padding.outputGone
  | .destroySealer => (s.destroySealer, .error .cellInvalid)
  | .destroySender => (s.destroySender, .error .cellInvalid)

def calls (c : Crypto) (s : Sealing) : List SealCall → Sealing
  | [] => s
  | k :: ks => calls c (call c s k).1 ks

end

/-! ## What a call keeps -/

/-- A property kept by everything a call does. -/
structure Keeps (c : Crypto) (P : Sealing → Prop) : Prop where
  setBusy : ∀ s b, P s → P (s.setBusy b)
  destroySealer : ∀ s, P s → P s.destroySealer
  destroySender : ∀ s, P s → P s.destroySender
  taken : ∀ s o payload padding, P s → P (s.sealNext c o payload padding).1
  emitted : ∀ s o payload padding s' cell, P s → s.sealNext c o payload padding = (s', .ok cell) →
    P (s'.emit cell).1

variable {c : Crypto} {P : Sealing → Prop}

theorem Keeps.abort (h : Keeps c P) {s : Sealing} (hs : P s) (e : SealError) : P (s.abort e).1 :=
  h.setBusy _ _ (h.destroySealer _ hs)

theorem Keeps.sealWith (h : Keeps c P) {s : Sealing} (hs : P s) (o : SealOptions)
    (payload padding : Bytes) : P (s.sealWith c o payload padding).1 := by
  unfold Sealing.sealWith
  have ht := h.taken s o payload padding hs
  split
  · next e => rw [e] at ht; exact ht
  · next e => exact h.emitted _ _ _ _ _ _ hs e

theorem Keeps.sealIntoWith (h : Keeps c P) {s : Sealing} (hs : P s) (payload padding : Bytes)
    (outputGone : Bool) : P (s.sealIntoWith c payload padding outputGone).1 := by
  unfold Sealing.sealIntoWith
  have ht := h.taken s s.sealer.options payload padding hs
  split
  · next e => rw [e] at ht; exact h.abort ht _
  · next e =>
    rw [e] at ht
    split
    · exact h.abort ht _
    · exact h.setBusy _ false (h.emitted _ _ _ _ _ _ hs e)

mutual

theorem Keeps.call (h : Keeps c P) : ∀ (k : SealCall) {s : Sealing}, P s → P (s.call c k).1
  | .sealCell options payload hook padding, s, hs => by
    unfold Sealing.call
    split
    · exact hs
    · next bytes _ =>
      split
      · exact hs
      · split
        · exact h.sealWith hs _ _ _
        · have hh := Keeps.calls h hook hs
          dsimp only
          split
          · exact hh
          · split
            · exact hh
            · exact h.sealWith hh _ _ _
  | .sealInto output payload hook padding, s, hs => by
    have hb := h.setBusy s true hs
    unfold Sealing.call
    dsimp only
    split
    · exact h.abort hb _
    · split
      · exact h.abort hb _
      · split
        · exact h.sealIntoWith hb _ _ _
        · have hh := Keeps.calls h hook hb
          split
          · exact h.abort hh _
          · split
            · exact h.abort hh _
            · exact h.sealIntoWith hh _ _ _
  | .destroySealer, s, hs => by
    unfold Sealing.call
    exact h.destroySealer s hs
  | .destroySender, s, hs => by
    unfold Sealing.call
    exact h.destroySender s hs

theorem Keeps.calls (h : Keeps c P) : ∀ (ks : List SealCall) {s : Sealing}, P s → P (s.calls c ks)
  | [], s, hs => by
    unfold Sealing.calls
    exact hs
  | k :: ks, s, hs => by
    unfold Sealing.calls
    exact Keeps.calls h ks (Keeps.call h k hs)

end

/-! ## Counters -/

/-- The counters of the AEAD calls rise, inside the range from `initial` to the
maximum, and below the sender's next one; the cells handed out are some of them. -/
structure Ordered (initial : Nat) (s : Sealing) : Prop where
  rising : (s.log.map AeadCall.counter).Pairwise (· < ·)
  range : ∀ a ∈ s.log, initial ≤ a.counter ∧ a.counter ≤ s.sender.maximum
  frontier : s.sender.closed = false → initial ≤ s.sender.value ∧
    s.sender.value ≤ s.sender.maximum ∧ ∀ a ∈ s.log, a.counter < s.sender.value
  cells : (s.cells.map Cell.counter).Sublist (s.log.map AeadCall.counter)

/-- Taking a counter: the sender is closed and nothing happens, or its value goes
to the AEAD and the sender moves past it. -/
theorem sealNext_cases (c : Crypto) (s : Sealing) (o : SealOptions) (payload padding : Bytes) :
    (s.sender.closed = true ∧ s.sealNext c o payload padding = (s, .error .counterExhausted)) ∨
    ∃ sender a r, s.sender.closed = false ∧ a.counter = s.sender.value ∧
      sender.maximum = s.sender.maximum ∧
      (sender.closed = false → s.sender.value ≠ s.sender.maximum ∧
        sender.value = s.sender.value + 1) ∧
      s.sealNext c o payload padding = ({ s with sender, log := s.log ++ [a] }, r) ∧
      ∀ cell, r = .ok cell → cell.counter = s.sender.value ∧ cell.payload = payload := by
  unfold sealNext SenderCounter.next
  by_cases hc : s.sender.closed = true
  · rw [if_pos hc]
    exact .inl ⟨hc, rfl⟩
  · rw [if_neg hc]
    have hcell : ∀ a : AeadCall, ∀ cell, sealedCell c o a payload = .ok cell →
        cell.counter = a.counter ∧ cell.payload = payload := by
      intro a cell h
      unfold sealedCell at h
      split at h
      · cases h
      · split at h
        · cases h
        · cases h
          exact ⟨rfl, rfl⟩
    have hcell' := hcell (o.aeadCall s.sender.value payload padding)
    have hopen : s.sender.closed = false := by simpa using hc
    by_cases hmax : s.sender.value = s.sender.maximum
    · rw [if_pos hmax]
      exact .inr ⟨{ s.sender with closed := true }, _, _, hopen, rfl, rfl, by simp, rfl, hcell'⟩
    · rw [if_neg hmax]
      exact .inr ⟨{ s.sender with value := s.sender.value + 1 }, _, _, hopen, rfl, rfl,
        fun _ => ⟨hmax, rfl⟩, rfl, hcell'⟩

theorem Ordered.taken {initial : Nat} {s : Sealing} (h : s.Ordered initial)
    (hopen : s.sender.closed = false) {sender : SenderCounter} {a : AeadCall}
    (ha : a.counter = s.sender.value) (hmax : sender.maximum = s.sender.maximum)
    (hnext : sender.closed = false →
      s.sender.value ≠ s.sender.maximum ∧ sender.value = s.sender.value + 1) :
    Ordered initial { s with sender, log := s.log ++ [a] } := by
  obtain ⟨hlow, hhigh, hbelow⟩ := h.frontier hopen
  refine ⟨?_, ?_, ?_, ?_⟩
  · rw [List.map_append, List.pairwise_append]
    refine ⟨h.rising, List.pairwise_singleton _ _, fun x hx y hy => ?_⟩
    obtain ⟨b, hb, rfl⟩ := List.mem_map.mp hx
    obtain rfl : y = a.counter := by simpa using hy
    rw [ha]
    exact hbelow b hb
  · intro b hb
    rcases List.mem_append.mp hb with hb | hb
    · rw [hmax]
      exact h.range b hb
    · obtain rfl := List.mem_singleton.mp hb
      rw [ha, hmax]
      exact ⟨hlow, hhigh⟩
  · intro hc
    obtain ⟨hne, hv⟩ := hnext hc
    dsimp only at hv ⊢
    rw [hv, hmax]
    refine ⟨by omega, by omega, fun b hb => ?_⟩
    rcases List.mem_append.mp hb with hb | hb
    · exact Nat.lt_succ_of_lt (hbelow b hb)
    · obtain rfl := List.mem_singleton.mp hb
      omega
  · rw [List.map_append]
    exact h.cells.trans (List.sublist_append_left _ _)

theorem keeps_ordered (c : Crypto) (initial : Nat) : Keeps c (Ordered initial) where
  setBusy s b h := ⟨h.rising, h.range, h.frontier, h.cells⟩
  destroySealer s h := ⟨h.rising, h.range, h.frontier, h.cells⟩
  destroySender s h := ⟨h.rising, h.range, by simp [destroySender, SenderCounter.destroy], h.cells⟩
  taken s o payload padding h := by
    rcases sealNext_cases c s o payload padding with ⟨-, e⟩ | ⟨_, _, _, ho, ha, hm, hn, e, -⟩
    · rw [e]
      exact h
    · rw [e]
      exact h.taken ho ha hm hn
  emitted s o payload padding s' cell h he := by
    rcases sealNext_cases c s o payload padding with ⟨-, e⟩ | ⟨_, a, _, ho, ha, hm, hn, e, hcell⟩
    · rw [e] at he
      cases he
    · rw [e] at he
      cases he
      have h' := h.taken ho ha hm hn
      refine ⟨h'.rising, h'.range, h'.frontier, ?_⟩
      show ((s.cells ++ [cell]).map Cell.counter).Sublist ((s.log ++ [a]).map AeadCall.counter)
      rw [List.map_append, List.map_append, List.map_singleton, List.map_singleton,
        (hcell cell rfl).1, ha]
      exact h.cells.append (List.Sublist.refl _)

/-- Nothing more reaches the AEAD once the sender is closed. -/
theorem keeps_closed (c : Crypto) (log : List AeadCall) (cells : List Cell) :
    Keeps c fun s => s.sender.closed = true ∧ s.log = log ∧ s.cells = cells where
  setBusy _ _ h := h
  destroySealer _ h := h
  destroySender _ h := ⟨rfl, h.2⟩
  taken s o payload padding h := by
    rcases sealNext_cases c s o payload padding with ⟨-, e⟩ | ⟨_, _, _, ho, -⟩
    · rw [e]
      exact h
    · exact absurd (h.1.symm.trans ho) (by decide)
  emitted s o payload padding s' cell h he := by
    rcases sealNext_cases c s o payload padding with ⟨-, e⟩ | ⟨_, _, _, ho, -⟩
    · rw [e] at he
      cases he
    · exact absurd (h.1.symm.trans ho) (by decide)

theorem sealWith_of_closed {s : Sealing} (h : s.sender.closed = true) (o : SealOptions)
    (payload padding : Bytes) : ∃ e, (s.sealWith c o payload padding).2 = .error e := by
  rcases sealNext_cases c s o payload padding with ⟨-, e⟩ | ⟨_, _, _, ho, -⟩
  · exact ⟨.counterExhausted, by rw [sealWith, e]⟩
  · exact absurd (h.symm.trans ho) (by decide)

theorem sealIntoWith_of_closed {s : Sealing} (h : s.sender.closed = true)
    (payload padding : Bytes) (outputGone : Bool) :
    ∃ e, (s.sealIntoWith c payload padding outputGone).2 = .error e := by
  rcases sealNext_cases c s s.sealer.options payload padding with ⟨-, e⟩ | ⟨_, _, _, ho, -⟩
  · exact ⟨.counterExhausted, by rw [sealIntoWith, e]; rfl⟩
  · exact absurd (h.symm.trans ho) (by decide)

theorem call_of_closed {s : Sealing} (h : s.sender.closed = true) (k : SealCall) :
    ∃ e, (s.call c k).2 = .error e := by
  have hcalls : ∀ s₁ : Sealing, s₁.sender.closed = true → ∀ ks,
      (s₁.calls c ks).sender.closed = true := fun s₁ h₁ ks =>
    ((keeps_closed c s₁.log s₁.cells).calls ks ⟨h₁, rfl, rfl⟩).1
  cases k with
  | sealCell options payload hook padding =>
    unfold call
    split
    · exact ⟨_, rfl⟩
    · split
      · exact ⟨_, rfl⟩
      · split
        · exact sealWith_of_closed h _ _ _
        · have hh := hcalls s h hook
          dsimp only
          split
          · exact ⟨_, rfl⟩
          · split
            · exact ⟨_, rfl⟩
            · exact sealWith_of_closed hh _ _ _
  | sealInto output payload hook padding =>
    unfold call
    dsimp only
    split
    · exact ⟨_, rfl⟩
    · split
      · exact ⟨_, rfl⟩
      · split
        · exact sealIntoWith_of_closed (s := s.setBusy true) h _ _ _
        · have hh := hcalls (s.setBusy true) h hook
          split
          · exact ⟨_, rfl⟩
          · split
            · exact ⟨_, rfl⟩
            · exact sealIntoWith_of_closed hh _ _ _
  | destroySealer => exact ⟨_, by rw [call]⟩
  | destroySender => exact ⟨_, by rw [call]⟩

end Sealing

/-! ## The two ends of a link -/

def counterOriginDomain : Bytes := "hyperdht/private-peer/counter-origin/v1".toUTF8.toList
def controlTimeoutMs : Nat := 60000

/-- The first eight bytes, most significant first. -/
def readU64 (bytes : Bytes) : Nat := (bytes.take 8).foldl (fun value b => value * 256 + b.toNat) 0

/-- `counterOrigin`: the low 63 bits of a digest of the key, plus one. -/
def counterOrigin (c : Crypto) (key : Bytes) : Nat :=
  readU64 (c.genericHash counterOriginDomain key) % 2 ^ 63 + 1

structure RouteContext where
  circuitId : Bytes
  epoch : Nat
  forwardKey : Bytes
  forwardNonce : Bytes
  reverseKey : Bytes
  reverseNonce : Bytes
  deriving DecidableEq, Repr

namespace CircuitLink

def sendDirection (initiator : Bool) : Direction := if initiator then .forward else .reverse
def receiveDirection (initiator : Bool) : Direction := if initiator then .reverse else .forward

/-- The fixed inputs of one direction of a link. -/
def optionsOf (context : RouteContext) (direction : Direction) : SealOptions where
  key := if direction = .forward then context.forwardKey else context.reverseKey
  noncePrefix := if direction = .forward then context.forwardNonce else context.reverseNonce
  cellClass := some .stream
  direction := some direction
  epoch := context.epoch
  circuitId := context.circuitId

def senderOptions (c : Crypto) (context : RouteContext) (initiator : Bool) :
    Except CounterError SenderCounter :=
  SenderCounter.new (some (counterOrigin c
    (if initiator then context.forwardKey else context.reverseKey))) (some maxCounter)

def newSealing (c : Crypto) (context : RouteContext) (initiator : Bool) :
    Except CounterError Sealing := do
  let sender ← senderOptions c context initiator
  return ⟨sender, ⟨optionsOf context (sendDirection initiator), false, false⟩, [], []⟩

def newReceiver (c : Crypto) (context : RouteContext) (initiator : Bool) :
    Except CounterError OrderedReceiver :=
  OrderedReceiver.new ⟨64, controlTimeoutMs, some (counterOrigin c
    (if initiator then context.reverseKey else context.forwardKey)), some maxCounter⟩

/-- A call that a link makes on its sealing side: a link has no padding hook. -/
def Calls : SealCall → Prop
  | .sealInto _ _ hook _ => hook = []
  | .destroySealer | .destroySender => True
  | .sealCell .. => False

/-- The cells of a link have consecutive counters, and while it can seal at all
the sender is at the one after. -/
structure Consecutive (initial : Nat) (s : Sealing) : Prop where
  counters : s.cells.map Cell.counter = List.range' initial s.cells.length
  next : s.sealer.destroyed = true ∨ s.sender.closed = true ∨
    s.sender.value = initial + s.cells.length

theorem consecutive_sealIntoWith {c : Crypto} {initial : Nat} {s : Sealing}
    (h : Consecutive initial s) (hlive : s.sealer.destroyed = false) (payload padding : Bytes)
    (outputGone : Bool) :
    Consecutive initial (s.sealIntoWith c payload padding outputGone).1 := by
  unfold Sealing.sealIntoWith
  rcases Sealing.sealNext_cases c s s.sealer.options payload padding with
    ⟨-, e⟩ | ⟨sender, a, r, ho, ha, hm, hn, e, hcell⟩
  · rw [e]
    exact ⟨h.counters, .inl rfl⟩
  · have hv : s.sender.value = initial + s.cells.length := by
      rcases h.next with h₁ | h₁ | h₁
      · exact absurd (hlive.symm.trans h₁) (by decide)
      · exact absurd (ho.symm.trans h₁) (by decide)
      · exact h₁
    rw [e]
    cases r with
    | error e => exact ⟨h.counters, .inl rfl⟩
    | ok cell =>
      dsimp only
      split
      · exact ⟨h.counters, .inl rfl⟩
      · refine ⟨?_, .inr ?_⟩
        · show (s.cells ++ [cell]).map Cell.counter = List.range' initial (s.cells ++ [cell]).length
          rw [List.map_append, h.counters, List.length_append, List.length_singleton,
            List.range'_concat, List.map_singleton, (hcell cell rfl).1, hv, Nat.one_mul]
        · show sender.closed = true ∨ sender.value = initial + (s.cells ++ [cell]).length
          rw [List.length_append, List.length_singleton]
          cases hc : sender.closed with
          | true => exact .inl rfl
          | false => exact .inr (by rw [(hn hc).2, hv, Nat.add_assoc])

theorem consecutive_call {c : Crypto} {initial : Nat} {s : Sealing} (h : Consecutive initial s)
    {k : SealCall} (hk : Calls k) : Consecutive initial (s.call c k).1 := by
  cases k with
  | sealCell => exact absurd hk id
  | destroySealer =>
    unfold Sealing.call
    exact ⟨h.counters, .inl rfl⟩
  | destroySender =>
    unfold Sealing.call
    exact ⟨h.counters, .inr (.inl rfl)⟩
  | sealInto output payload hook padding =>
    obtain rfl : hook = [] := hk
    have hb : Consecutive initial (s.setBusy true) := ⟨h.counters, h.next⟩
    have habort : ∀ e, Consecutive initial ((s.setBusy true).abort e).1 := fun e =>
      ⟨h.counters, .inl rfl⟩
    unfold Sealing.call
    dsimp only
    rw [Sealing.calls]
    split
    · exact habort _
    · next hlive =>
      have hlive' : (s.setBusy true).sealer.destroyed = false := by
        rw [not_or] at hlive
        simpa using hlive.1
      split
      · exact habort _
      · split
        · exact consecutive_sealIntoWith hb hlive' _ _ _
        · split
          · exact habort _
          · split
            · exact habort _
            · exact consecutive_sealIntoWith hb hlive' _ _ _

theorem consecutive_calls {c : Crypto} {initial : Nat} {s : Sealing} (h : Consecutive initial s)
    {ks : List SealCall} (hks : ∀ k ∈ ks, Calls k) : Consecutive initial (s.calls c ks) := by
  induction ks generalizing s with
  | nil =>
    rw [Sealing.calls]
    exact h
  | cons k ks ih =>
    rw [Sealing.calls]
    exact ih (consecutive_call h (hks k List.mem_cons_self))
      fun k' hk' => hks k' (List.mem_cons_of_mem _ hk')

end CircuitLink

namespace OrderedReceiver

/-- A live receiver with nothing buffered and no gap open. -/
structure Clear (r : OrderedReceiver) : Prop where
  idle : r.mutating = false
  noRequest : r.destroyRequested = false
  live : r.closed = false
  empty : r.buffer = .empty
  noGap : r.gapStartedAt = none

theorem deliver_clear {r : OrderedReceiver} (h : r.buffer = .empty) (p : Chunk) :
    r.deliver p = (if r.next = r.maximum then r.closeExhausted
      else { r with next := r.next + 1, gapStartedAt := none, lastObservedAt := none }, [p]) := by
  unfold deliver
  split
  · rfl
  · simp only [h, JsMap.size_empty, drain, if_true]

theorem push_next {r : OrderedReceiver} (hlive : r.closed = false) (hgap : r.gapStartedAt = none)
    (hempty : r.buffer = .empty) (hreq : r.destroyRequested = false) (p : Chunk) (clock : Clock) :
    r.push r.next p clock = ((r.deliver p).1, .ok [p]) := by
  have hcheck : r.checkGap clock = (r, .ok false) := by
    unfold checkGap
    rw [hgap]
    rfl
  have hnew : ¬(r.next < r.next ∨ r.buffer.has r.next = true) := by
    rw [hempty]
    simp [JsMap.has]
  have hreq' : (r.deliver p).1.destroyRequested = false := by
    rw [deliver_clear hempty]
    dsimp only
    split
    · exact hreq
    · exact hreq
  unfold push
  rw [if_neg (by rw [hlive]; decide), hcheck]
  dsimp only
  rw [if_neg hnew, if_neg (Nat.lt_irrefl _)]
  unfold assertNoDeferredDestroy
  rw [if_neg (by rw [hreq']; decide), show (r.deliver p).2 = [p] by rw [deliver_clear hempty]]

/-- A push at `next` is delivered at once, and the clock is not read. -/
theorem use_next {r : OrderedReceiver} (h : r.Clear) (hmax : r.next ≤ r.maximum) (p : Chunk)
    (clock : Clock) :
    ∃ r', r.use (.push r.next p clock) = (r', .delivered [p]) ∧
      (r.next < r.maximum → r'.Clear ∧ r'.next = r.next + 1 ∧ r'.maximum = r.maximum) := by
  have hcount : counterValue r.next r.maximum = .ok r.next := by
    unfold counterValue
    rw [if_neg (by omega), Int.toNat_natCast]
  have hdel := deliver_clear (r := { r with mutating := true }) h.empty p
  have hpush := push_next (r := { r with mutating := true }) h.live h.noGap h.empty h.noRequest p
    clock
  have huse : r.use (.push r.next p clock) =
      ((deliver { r with mutating := true } p).1.finish, .delivered [p]) := by
    unfold use pushAuthenticated
    dsimp only
    rw [mutate_eq h.idle]
    dsimp only at hpush ⊢
    rw [hcount]
    dsimp only
    rw [hpush]
  refine ⟨_, huse, fun hlt => ?_⟩
  rw [hdel, if_neg (show ¬r.next = r.maximum by omega), finish_of_noRequest (by exact h.noRequest)]
  exact ⟨⟨rfl, h.noRequest, h.live, h.empty, rfl⟩, rfl, rfl⟩

/-- Cells with consecutive counters from `next` on are all delivered, one at a time. -/
theorem uses_consecutive {r : OrderedReceiver} (h : r.Clear) (cells : List Cell)
    (hcells : cells.map Cell.counter = List.range' r.next cells.length)
    (hmax : r.next + cells.length ≤ r.maximum + 1) (clock : Cell → Clock) :
    (r.uses (cells.map fun x => .push x.counter (.buffer x.payload) (clock x))).2.map Prod.snd =
      cells.map fun x => .delivered [.buffer x.payload] := by
  induction cells generalizing r with
  | nil => rfl
  | cons x xs ih =>
    rw [List.map_cons, List.length_cons, List.range'_succ] at hcells
    obtain ⟨hx, hxs⟩ := List.cons.inj hcells
    rw [List.length_cons] at hmax
    obtain ⟨r', he, hnext⟩ := use_next h (by omega) (.buffer x.payload) (clock x)
    rw [List.map_cons, List.map_cons, uses, hx, he]
    rw [List.map_cons]
    cases xs with
    | nil => rfl
    | cons y ys =>
      rw [List.length_cons] at hmax
      obtain ⟨hclear, hn, hm⟩ := hnext (by omega)
      rw [ih hclear (by rw [hn]; exact hxs) (by rw [hn, hm, List.length_cons]; omega)]

end OrderedReceiver

theorem SenderCounter.new_eq_ok {initial maximum : Option Int} {sender : SenderCounter}
    (h : SenderCounter.new initial maximum = .ok sender) :
    sender.value ≤ sender.maximum ∧ sender.maximum < 2 ^ 64 ∧ sender.closed = false ∧
      (sender.value : Int) = initial.getD 0 := by
  unfold SenderCounter.new at h
  cases hm : counterValue (maximum.getD maxCounter) maxCounter with
  | error e => simp [hm, bind, Except.bind] at h
  | ok m =>
    cases hv : counterValue (initial.getD 0) m with
    | error e => simp [hm, hv, bind, Except.bind] at h
    | ok v =>
      simp only [hm, hv, bind, Except.bind, pure, Except.pure, Except.ok.injEq] at h
      subst h
      obtain ⟨-, hle⟩ := counterValue_ok hm
      obtain ⟨hval, hle'⟩ := counterValue_ok hv
      refine ⟨hle', ?_, rfl, hval⟩
      show m < 2 ^ 64
      unfold maxCounter at hle
      omega

namespace Sealing

theorem keeps_maximum (c : Crypto) (maximum : Nat) :
    Keeps c fun s => s.sender.maximum = maximum where
  setBusy _ _ h := h
  destroySealer _ h := h
  destroySender _ h := h
  taken s o payload padding h := by
    rcases sealNext_cases c s o payload padding with ⟨-, e⟩ | ⟨_, _, _, -, -, hm, -, e, -⟩
    · rw [e]
      exact h
    · rw [e]
      exact hm.trans h
  emitted s o payload padding s' cell h he := by
    rcases sealNext_cases c s o payload padding with ⟨-, e⟩ | ⟨_, _, _, -, -, hm, -, e, -⟩
    · rw [e] at he
      cases he
    · rw [e] at he
      cases he
      exact hm.trans h

theorem ordered_new {sender : SenderCounter} (hle : sender.value ≤ sender.maximum)
    (sealer : Sealer) : Ordered sender.value ⟨sender, sealer, [], []⟩ :=
  ⟨List.Pairwise.nil, by simp, fun _ => ⟨le_rfl, hle, by simp⟩, List.Sublist.refl _⟩

/-- Two AEAD calls with one counter are one call. -/
theorem Ordered.index_eq {initial : Nat} {s : Sealing} (h : s.Ordered initial) {i j : Nat}
    {a b : AeadCall} (hi : s.log[i]? = some a) (hj : s.log[j]? = some b)
    (he : a.counter = b.counter) : i = j := by
  have hi' : (s.log.map AeadCall.counter)[i]? = some a.counter := by simp [hi]
  have hj' : (s.log.map AeadCall.counter)[j]? = some b.counter := by simp [hj]
  obtain ⟨hli, hvi⟩ := List.getElem?_eq_some_iff.mp hi'
  obtain ⟨hlj, hvj⟩ := List.getElem?_eq_some_iff.mp hj'
  rcases Nat.lt_trichotomy i j with hlt | heq | hgt
  · have := List.pairwise_iff_getElem.mp h.rising i j hli hlj hlt
    omega
  · exact heq
  · have := List.pairwise_iff_getElem.mp h.rising j i hlj hli hgt
    omega

end Sealing

namespace CircuitLink

theorem counterOrigin_le (c : Crypto) (key : Bytes) : counterOrigin c key ≤ maxCounter := by
  unfold counterOrigin maxCounter
  have := Nat.mod_lt (readU64 (c.genericHash counterOriginDomain key)) (show 0 < 2 ^ 63 by decide)
  omega

theorem counterValue_of_le {n maximum : Nat} (h : n ≤ maximum) :
    counterValue n maximum = .ok n := by
  unfold counterValue
  rw [if_neg (by omega), Int.toNat_natCast]

theorem newSealing_eq (c : Crypto) (context : RouteContext) (initiator : Bool) :
    newSealing c context initiator = .ok
      ⟨⟨counterOrigin c (if initiator then context.forwardKey else context.reverseKey), maxCounter,
        false⟩, ⟨optionsOf context (sendDirection initiator), false, false⟩, [], []⟩ := by
  unfold newSealing senderOptions SenderCounter.new
  simp only [Option.getD_some, counterValue_of_le (counterOrigin_le c _),
    counterValue_of_le (le_refl maxCounter), bind, Except.bind, pure, Except.pure]

theorem newReceiver_eq (c : Crypto) (context : RouteContext) (initiator : Bool) :
    newReceiver c context initiator = .ok
      ⟨64, controlTimeoutMs, true,
        counterOrigin c (if initiator then context.reverseKey else context.forwardKey), maxCounter,
        .empty, none, none, false, false, false⟩ := by
  unfold newReceiver OrderedReceiver.new
  simp only [Option.getD_some, counterValue_of_le (counterOrigin_le c _),
    counterValue_of_le (le_refl maxCounter), bind, Except.bind, pure, Except.pure]
  rfl

theorem Consecutive.length_le {initial : Nat} {s : Sealing} (h : Consecutive initial s)
    (hord : s.Ordered initial) (hle : initial ≤ s.sender.maximum) :
    initial + s.cells.length ≤ s.sender.maximum + 1 := by
  cases hn : s.cells.length with
  | zero => omega
  | succ n =>
    have hlast : initial + n ∈ s.cells.map Cell.counter := by
      rw [h.counters, hn, List.mem_range'_1]
      omega
    obtain ⟨a, ha, hc⟩ := List.mem_map.mp (hord.cells.subset hlast)
    have := (hord.range a ha).2
    omega

/-- **Nonces are never reused.** Whatever calls are made on a sealing side, two
AEAD calls under one key and nonce prefix have different counters; the cells
handed out have rising counters between the sender's initial value and its
maximum; and once the maximum is used every call fails before the AEAD. Of a
link built from one route context, what one end sends and what the other end
receives is one direction, started at one counter, and the receiver of the other
end delivers every cell of the link from the first one on. -/
theorem nonces_unique (c : Crypto) (initial maximum : Option Int) (sender : SenderCounter)
    (hnew : SenderCounter.new initial maximum = .ok sender) (options : SealOptions)
    (ks : List SealCall) (s : Sealing)
    (hs : Sealing.calls c ⟨sender, ⟨options, false, false⟩, [], []⟩ ks = s)
    (context : RouteContext) (initiator : Bool) :
    (∀ (i j : Nat) (a b : AeadCall), s.log[i]? = some a → s.log[j]? = some b → a.key = b.key →
      a.noncePrefix = b.noncePrefix → a.counter = b.counter → i = j) ∧
    (s.cells.map Cell.counter).Pairwise (· < ·) ∧
    (∀ x ∈ s.cells, initial.getD 0 ≤ x.counter ∧ x.counter ≤ sender.maximum ∧
      x.counter < 2 ^ 64) ∧
    ((∃ a ∈ s.log, a.counter = sender.maximum) → ∀ ks',
      (s.calls c ks').log = s.log ∧ ∀ k, ∃ e, ((s.calls c ks').call c k).2 = .error e) ∧
    ∃ s₀ r₀, newSealing c context initiator = .ok s₀ ∧
      newReceiver c context (!initiator) = .ok r₀ ∧
      s₀.sender.value = r₀.next ∧ sendDirection initiator = receiveDirection (!initiator) ∧
      ∀ ks', (∀ k ∈ ks', Calls k) → ∀ clock : Cell → Clock,
        (r₀.uses ((s₀.calls c ks').cells.map fun x =>
          .push x.counter (.buffer x.payload) (clock x))).2.map Prod.snd =
        (s₀.calls c ks').cells.map fun x => .delivered [.buffer x.payload] := by
  obtain ⟨hle, hmax, hopen, hval⟩ := SenderCounter.new_eq_ok hnew
  have hord : s.Ordered sender.value := by
    rw [← hs]
    exact (Sealing.keeps_ordered c _).calls ks (Sealing.ordered_new hle _)
  have hm : s.sender.maximum = sender.maximum := by
    rw [← hs]
    exact (Sealing.keeps_maximum c sender.maximum).calls ks rfl
  refine ⟨?_, ?_, ?_, ?_, ?_⟩
  · intro i j a b hi hj _ _ he
    exact hord.index_eq hi hj he
  · exact hord.rising.sublist hord.cells
  · intro x hx
    have hmem := hord.cells.subset (List.mem_map_of_mem hx)
    obtain ⟨a, ha, hax⟩ := List.mem_map.mp hmem
    have := hord.range a ha
    rw [hax, hm] at this
    omega
  · rintro ⟨a, ha, hamax⟩ ks'
    have hclosed : s.sender.closed = true := by
      cases hc : s.sender.closed with
      | true => rfl
      | false =>
        obtain ⟨-, h₁, h₂⟩ := hord.frontier hc
        have := h₂ a ha
        omega
    obtain ⟨h₁, h₂, -⟩ := (Sealing.keeps_closed c s.log s.cells).calls ks' ⟨hclosed, rfl, rfl⟩
    exact ⟨h₂, Sealing.call_of_closed h₁⟩
  · refine ⟨_, _, newSealing_eq c context initiator, newReceiver_eq c context (!initiator),
      ?_, ?_, ?_⟩
    · cases initiator <;> rfl
    · cases initiator <;> rfl
    · intro ks' hks' clock
      generalize hk : counterOrigin c (if initiator then context.forwardKey else
        context.reverseKey) = origin
      have horigin : origin ≤ maxCounter := hk ▸ counterOrigin_le c _
      have hr : counterOrigin c (if (!initiator) = true then context.reverseKey else
          context.forwardKey) = origin := by
        rw [← hk]
        cases initiator <;> rfl
      rw [hr]
      generalize hsealer : (⟨optionsOf context (sendDirection initiator), false, false⟩ : Sealer) =
        sealer
      have hstart : Consecutive origin ⟨⟨origin, maxCounter, false⟩, sealer, [], []⟩ :=
        ⟨rfl, .inr (.inr rfl)⟩
      have hfirst : Sealing.Ordered origin ⟨⟨origin, maxCounter, false⟩, sealer, [], []⟩ :=
        @Sealing.ordered_new ⟨origin, maxCounter, false⟩ horigin sealer
      have hcons := consecutive_calls (c := c) hstart hks'
      have hord' := (Sealing.keeps_ordered c origin).calls ks' hfirst
      have hmax' := (Sealing.keeps_maximum c maxCounter).calls ks'
        (s := ⟨⟨origin, maxCounter, false⟩, sealer, [], []⟩) rfl
      have hlen := hcons.length_le hord' (by rw [hmax']; exact horigin)
      rw [hmax'] at hlen
      exact OrderedReceiver.uses_consecutive ⟨rfl, rfl, rfl, rfl, rfl⟩ _ hcons.counters hlen clock

/-- A stand-in for the crypto functions with the sizes of the real ones. -/
def plainCrypto : Crypto where
  aeadSeal a := some (a.plaintext ++ List.replicate aeadTagBytes 0)
  genericHash _ key := key

def plainOptions : SealOptions :=
  optionsOf ⟨List.replicate 16 1, 7, List.replicate 32 2, List.replicate 16 3, List.replicate 32 4,
    List.replicate 16 5⟩ .forward

def threeSeals : List SealCall :=
  List.replicate 3 (.sealInto ⟨true, 1200, some 0⟩ ⟨some [9], false⟩ []
    ⟨some (List.replicate 1146 0), false, false⟩)

/-- Three seals on a sender with the counters 5 and 6. -/
theorem nonces_unique_exhausted :
    ∃ sender s, SenderCounter.new (some 5) (some 6) = .ok sender ∧
      Sealing.calls plainCrypto ⟨sender, ⟨plainOptions, false, false⟩, [], []⟩ threeSeals = s ∧
      s.cells.map Cell.counter = [5, 6] ∧ ∀ k, ∃ e, (s.call plainCrypto k).2 = .error e := by
  refine ⟨⟨5, 6, false⟩, _, rfl, rfl, by decide +kernel, ?_⟩
  have h := (nonces_unique plainCrypto (some 5) (some 6) ⟨5, 6, false⟩ rfl plainOptions threeSeals _
    rfl ⟨[], 0, [], [], [], []⟩ true).2.2.2.1
  have hused : ∃ a ∈ (Sealing.calls plainCrypto ⟨⟨5, 6, false⟩, ⟨plainOptions, false, false⟩, [],
      []⟩ threeSeals).log, a.counter = 6 := by
    decide +kernel
  intro k
  have := (h hused []).2 k
  rwa [Sealing.calls] at this

end CircuitLink

end HyperDht.Private
