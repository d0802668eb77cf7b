import HyperDht.Lib.Buffer
import HyperDht.Private.LinkReceive
import Mathlib.Tactic.Ring

/-!
# The bytes of a cell

`CellCodec` has two implementations: `seal` and `open` allocate what they need,
`sealInto` and `openInto` of a reusable context work in scratch that is kept
between calls. Both are written down here buffer by buffer, with the offsets of
the source. Buffers do not alias and are not detached here, and the receiver
`open` hands the payload to is left out; `CellCodec.lean` has the counters and
the hooks.

The AEAD is a parameter (`Aead`), `Aead.Lawful` is what is known of it. A new
buffer has arbitrary contents of the size asked for (`alloc`).
-/

namespace HyperDht.Private

/-- `encrypt` of plaintext, associated data, nonce and key, and its inverse. -/
structure Aead where
  encrypt : Bytes → Bytes → Bytes → Bytes → Bytes
  decrypt : Bytes → Bytes → Bytes → Bytes → Option Bytes

/-- The AEAD opens what it sealed under the same nonce, key and associated data,
and nothing else. -/
structure Aead.Lawful (a : Aead) : Prop where
  length : ∀ m ad n k, (a.encrypt m ad n k).length = m.length + aeadTagBytes
  opens : ∀ m ad n k, a.decrypt (a.encrypt m ad n k) ad n k = some m
  rejects : ∀ c ad n k m, a.decrypt c ad n k = some m → c = a.encrypt m ad n k

def maxAssociatedData : Nat := 512
def maxAeadPlaintext : Nat := 65535

def zeros (size : Nat) : Bytes := List.replicate size 0

def writeUint16BE (buffer : Bytes) (value offset : Nat) : Bytes :=
  (buffer.set offset (UInt8.ofNat (value >>> 8))).set (offset + 1) (UInt8.ofNat value)

/-- The loop of `writeUint64BE`, from the last byte down: `n` bytes are left. -/
def writeUintLoop (offset : Nat) : Nat → Nat → Bytes → Bytes
  | 0, _, buffer => buffer
  | n + 1, value, buffer =>
    writeUintLoop offset n (value >>> 8) (buffer.set (offset + n) (UInt8.ofNat (value &&& 0xff)))

def writeUint64BE (buffer : Bytes) (value offset : Nat) : Bytes :=
  writeUintLoop offset 8 value buffer

/-- The loop of `readUint64BE` over the next `n` bytes. -/
def readUintLoop (buffer : Bytes) : Nat → Nat → Nat → Nat
  | 0, _, value => value
  | n + 1, i, value => readUintLoop buffer n (i + 1) ((value <<< 8) ||| (buffer.getD i 0).toNat)

def readUint64BE (buffer : Bytes) (offset : Nat) : Nat := readUintLoop buffer 8 offset 0

/-- `(buffer[0] << 8) | buffer[1]`. -/
def payloadLengthOf (buffer : Bytes) : Nat :=
  ((buffer.getD 0 0).toNat <<< 8) ||| (buffer.getD 1 0).toNat

/-- `equal`: the differences of all bytes together. -/
def equal (left right : Bytes) : Bool :=
  left.length == right.length &&
    (left.zip right).foldl (fun difference b => difference ||| (b.1 ^^^ b.2)) 0 == 0

def allocateScratch (alloc : Nat → Bytes) (size : Nat) : Option Bytes :=
  if (alloc size).length = size then some (alloc size) else none

/-! ## What the loops write and read -/

@[simp] theorem length_writeUintBE (n value : Nat) : (writeUintBE n value).length = n := by
  induction n generalizing value with
  | zero => rfl
  | succ n ih => rw [writeUintBE, List.length_append, ih, List.length_singleton]

theorem ofNat_and_ff (value : Nat) : UInt8.ofNat (value &&& 0xff) = UInt8.ofNat value := by
  apply UInt8.toNat_inj.mp
  rw [UInt8.toNat_ofNat', UInt8.toNat_ofNat', show (0xff : Nat) = 2 ^ 8 - 1 from rfl,
    Nat.and_two_pow_sub_one_eq_mod, Nat.mod_mod]

/-- The loop writes from its last byte down what stands behind the buffer's
written part. -/
theorem writeUintLoop_next : ∀ {n value : Nat} {w r : Bytes}, n ≤ r.length →
    writeUintLoop w.length n value (w ++ r) = (w ++ writeUintBE n value) ++ r.drop n := by
  intro n
  induction n with
  | zero =>
    intro value w r _
    simp [writeUintLoop, writeUintBE]
  | succ n ih =>
    intro value w r hr
    obtain ⟨x, rest, hx⟩ : ∃ x rest, r.drop n = x :: rest :=
      List.exists_cons_of_length_pos (by rw [List.length_drop]; omega)
    have hdrop : r.drop (n + 1) = rest := by
      rw [← List.drop_drop, hx]
      rfl
    have hset : (w ++ r).set (w.length + n) (UInt8.ofNat (value &&& 0xff)) =
        w ++ r.set n (UInt8.ofNat value) := by
      rw [List.set_append_right _ _ (by omega), Nat.add_sub_cancel_left, ofNat_and_ff]
    have hrest : (r.set n (UInt8.ofNat value)).drop n = UInt8.ofNat value :: rest := by
      rw [List.drop_set, if_neg (lt_irrefl n), Nat.sub_self, hx]
      rfl
    rw [writeUintLoop, hset, ih (by rw [List.length_set]; omega), hrest, hdrop, writeUintBE,
      Nat.shiftRight_eq_div_pow]
    simp

theorem writeUint64BE_next {v i : Nat} {w r : Bytes} (hw : i = w.length) (hr : 8 ≤ r.length) :
    writeUint64BE (w ++ r) v i = (w ++ writeUintBE 8 v) ++ r.drop 8 := by
  rw [hw]
  exact writeUintLoop_next hr

theorem writeUint16BE_start {value : Nat} {r : Bytes} (hr : 2 ≤ r.length) :
    writeUint16BE r value 0 = writeUintBE 2 value ++ r.drop 2 := by
  match r, hr with
  | x :: y :: rest, _ =>
    simp [writeUint16BE, writeUintBE, Nat.shiftRight_eq_div_pow]

theorem shiftLeft_or_toNat (value : Nat) (b : UInt8) :
    (value <<< 8) ||| b.toNat = value * 256 + b.toNat := by
  rw [← Nat.shiftLeft_add_eq_or_of_lt (show b.toNat < 2 ^ 8 from b.toNat_lt), Nat.shiftLeft_eq]

theorem readUintLoop_eq {buffer : Bytes} : ∀ {n i value : Nat}, i + n ≤ buffer.length →
    readUintLoop buffer n i value =
      ((buffer.drop i).take n).foldl (fun value b => value * 256 + b.toNat) value := by
  intro n
  induction n with
  | zero =>
    intro i value _
    simp [readUintLoop]
  | succ n ih =>
    intro i value h
    have hcons : buffer.drop i = buffer.getD i 0 :: buffer.drop (i + 1) := by
      rw [List.drop_eq_getElem_cons (show i < buffer.length by omega),
        List.getD_eq_getElem?_getD, List.getElem?_eq_getElem (by omega)]
      rfl
    rw [readUintLoop, ih (by omega), hcons, List.take_succ_cons, List.foldl_cons,
      shiftLeft_or_toNat]

theorem readUint64BE_eq {buffer : Bytes} {offset : Nat} (h : offset + 8 ≤ buffer.length) :
    readUint64BE buffer offset = readU64 (buffer.drop offset) := readUintLoop_eq h

theorem foldl_writeUintBE (n value start : Nat) :
    (writeUintBE n value).foldl (fun value b => value * 256 + b.toNat) start =
      start * 256 ^ n + value % 256 ^ n := by
  induction n generalizing value with
  | zero => simp [writeUintBE, Nat.mod_one]
  | succ n ih =>
    have hmod : value % 256 ^ (n + 1) = value / 256 % 256 ^ n * 256 + value % 256 := by
      rw [Nat.pow_succ', Nat.mod_mul]
      ring
    rw [writeUintBE, List.foldl_append, ih, List.foldl_cons, List.foldl_nil, UInt8.toNat_ofNat',
      hmod, pow_succ]
    ring_nf

theorem readU64_writeUintBE {value : Nat} (h : value < 2 ^ 64) (rest : Bytes) :
    readU64 (writeUintBE 8 value ++ rest) = value := by
  have htake : (writeUintBE 8 value ++ rest).take 8 = writeUintBE 8 value := by
    rw [List.take_append_of_le_length (by simp), List.take_of_length_le (by simp)]
  unfold readU64
  rw [htake, foldl_writeUintBE, Nat.zero_mul, Nat.zero_add, Nat.mod_eq_of_lt (by omega)]

theorem writeUintBE_foldl (bytes : Bytes) : writeUintBE bytes.length
    (bytes.foldl (fun value b => value * 256 + b.toNat) 0) = bytes := by
  induction bytes using List.reverseRecOn with
  | nil => rfl
  | append_singleton bytes b ih =>
    have hb := b.toNat_lt
    rw [List.length_append, List.length_singleton, writeUintBE, List.foldl_append,
      List.foldl_cons, List.foldl_nil]
    have hdiv : (bytes.foldl (fun value b => value * 256 + b.toNat) 0 * 256 + b.toNat) / 256 =
        bytes.foldl (fun value b => value * 256 + b.toNat) 0 := by omega
    have hlast : UInt8.ofNat (bytes.foldl (fun value b => value * 256 + b.toNat) 0 * 256 +
        b.toNat) = b := by
      apply UInt8.toNat_inj.mp
      rw [UInt8.toNat_ofNat']
      omega
    rw [hdiv, ih, hlast]

/-- Eight bytes are those of the number they read as. -/
theorem readU64_eq_iff {bytes : Bytes} {value : Nat} (hb : bytes.length = 8)
    (hv : value < 2 ^ 64) : readU64 bytes = value ↔ bytes = writeUintBE 8 value := by
  constructor
  · rintro rfl
    have h := writeUintBE_foldl bytes
    rw [hb] at h
    unfold readU64
    rw [List.take_of_length_le (by omega), h]
  · rintro rfl
    have h := readU64_writeUintBE hv []
    rwa [List.append_nil] at h

theorem foldl_bytes_lt (l : Bytes) : ∀ {n start : Nat}, start < 256 ^ n →
    l.foldl (fun value b => value * 256 + b.toNat) start < 256 ^ (n + l.length) := by
  induction l with
  | nil =>
    intro n start h
    exact h
  | cons b l ih =>
    intro n start h
    have hb := b.toNat_lt
    have hnext : start * 256 + b.toNat < 256 ^ (n + 1) := by
      rw [pow_succ]
      omega
    have := ih hnext
    rwa [List.foldl_cons, List.length_cons, Nat.add_comm l.length 1, ← Nat.add_assoc]

theorem foldl_take_lt (bytes : Bytes) (n : Nat) :
    (bytes.take n).foldl (fun value b => value * 256 + b.toNat) 0 < 256 ^ n := by
  have h := foldl_bytes_lt (bytes.take n) (show 0 < 256 ^ 0 by decide)
  have hlen : 0 + (bytes.take n).length ≤ n := by
    rw [List.length_take]
    omega
  calc (bytes.take n).foldl (fun value b => value * 256 + b.toNat) 0
      < 256 ^ (0 + (bytes.take n).length) := h
    _ ≤ 256 ^ n := Nat.pow_le_pow_right (by decide) hlen

theorem readU64_lt (bytes : Bytes) : readU64 bytes < 2 ^ 64 := foldl_take_lt bytes 8

theorem payloadLengthOf_append {value : Nat} (h : value < 2 ^ 16) (rest : Bytes) :
    payloadLengthOf (writeUintBE 2 value ++ rest) = value := by
  unfold payloadLengthOf
  rw [shiftLeft_or_toNat]
  simp only [writeUintBE, List.nil_append, List.cons_append, List.getD_cons_zero,
    List.getD_cons_succ, UInt8.toNat_ofNat']
  omega

theorem equal_iff {left right : Bytes} : equal left right = true ↔ left = right := by
  have hfold : ∀ (l r : Bytes) (d : UInt8), l.length = r.length →
      ((l.zip r).foldl (fun difference b => difference ||| (b.1 ^^^ b.2)) d = 0 ↔
        d = 0 ∧ l = r) := by
    intro l
    induction l with
    | nil =>
      intro r d h
      cases r with
      | nil => simp
      | cons y r => cases h
    | cons x l ih =>
      intro r d h
      cases r with
      | nil => cases h
      | cons y r =>
        rw [List.zip_cons_cons, List.foldl_cons, ih r _ (by simpa using h),
          UInt8.or_eq_zero_iff, UInt8.xor_eq_zero_iff, List.cons.injEq]
        tauto
  unfold equal
  rw [Bool.and_eq_true, beq_iff_eq, beq_iff_eq]
  constructor
  · rintro ⟨hlen, h⟩
    exact ((hfold left right 0 hlen).mp h).2
  · rintro rfl
    exact ⟨rfl, (hfold left left 0 rfl).mpr ⟨rfl, rfl⟩⟩

/-! ## The crypto suite -/

def nonceFor (alloc : Nat → Bytes) (noncePrefix : Bytes) (counter : Nat) : Option Bytes := do
  let nonce ← allocateScratch alloc 24
  let nonce ← setBytes nonce noncePrefix 0
  return writeUint64BE nonce counter 16

/-- `seal` of the crypto suite. -/
def suiteSeal (a : Aead) (alloc : Nat → Bytes) (key noncePrefix : Bytes) (counter : Nat)
    (associatedData plaintext : Bytes) : Option Bytes :=
  if key.length ≠ 32 ∨ noncePrefix.length ≠ 16 then none
  else if 2 ^ 64 ≤ counter ∨ maxAssociatedData < associatedData.length then none
  else if maxAeadPlaintext < plaintext.length then none
  else (nonceFor alloc noncePrefix counter).map fun nonce =>
    a.encrypt plaintext associatedData nonce key

/-- `open` of the crypto suite; what it throws and what it returns `null` for
are one to the codec. -/
def suiteOpen (a : Aead) (alloc : Nat → Bytes) (key noncePrefix : Bytes) (counter : Nat)
    (associatedData ciphertext : Bytes) : Option Bytes :=
  if key.length ≠ 32 ∨ noncePrefix.length ≠ 16 then none
  else if 2 ^ 64 ≤ counter ∨ maxAssociatedData < associatedData.length then none
  else if ciphertext.length < aeadTagBytes ∨ maxAeadPlaintext + aeadTagBytes < ciphertext.length then
    none
  else (nonceFor alloc noncePrefix counter).bind fun nonce =>
    a.decrypt ciphertext associatedData nonce key

/-! ## Allocating -/

def associatedData (alloc : Nat → Bytes) (header : Bytes) : Option Bytes := do
  let data ← allocateScratch alloc (cellHeaderDomain.length + cellHeaderSize)
  let data ← setBytes data cellHeaderDomain 0
  setBytes data header cellHeaderDomain.length

/-- The body of `seal`: length, payload and padding. -/
def sealBody (alloc : Nat → Bytes) (payload : Bytes) (padding : Nat → Bytes) : Option Bytes := do
  let body ← allocateScratch alloc cellBodySize
  let body := writeUint16BE body payload.length 0
  let body ← setBytes body payload 2
  let paddingSize := maxCellPayload - payload.length
  if 0 < paddingSize then
    if (padding paddingSize).length ≠ paddingSize then none
    else setBytes body (padding paddingSize) (2 + payload.length)
  else some body

/-- The header of `seal`. -/
def sealHeader (alloc : Nat → Bytes) (o : SealOptions) (counter : Nat) : Option Bytes := do
  let header ← allocateScratch alloc cellHeaderSize
  let header := header.set 0 protocolVersion
  let header := header.set 1 o.classByte
  let header := header.set 2 o.directionByte
  let header := header.set 3 0
  let header := writeUint64BE header o.epoch.toNat 4
  let header ← setBytes header o.circuitId 12
  return writeUint64BE header counter 28

/-- `CellCodec.seal` with the counter its sender gives. -/
def sealPacket (a : Aead) (alloc : Nat → Bytes) (o : SealOptions) (counter : Int) (payload : Bytes)
    (padding : Nat → Bytes) : Option Bytes :=
  if o.valid = false ∨ maxCellPayload < payload.length then none
  else do
    let body ← sealBody alloc payload padding
    if uint64 counter = false then none
    else
      let header ← sealHeader alloc o counter.toNat
      let data ← associatedData alloc header
      let ciphertext ← suiteSeal a alloc o.key o.noncePrefix counter.toNat data body
      if ciphertext.length ≠ cellBodySize + aeadTagBytes then none
      else
        let packet ← allocateScratch alloc cellSize
        let packet ← setBytes packet header 0
        setBytes packet ciphertext cellHeaderSize

def knownClass (b : UInt8) : Bool := b == 0 || b == 1 || b == 2

def knownDirection (b : UInt8) : Bool := b == 0 || b == 1

/-- `CellCodec.open` up to the call of the receiver, which it gives the counter
and the payload. -/
def openPacket (a : Aead) (alloc : Nat → Bytes) (o : SealOptions) (packet : Bytes) :
    Option (Nat × Bytes) :=
  if packet.length ≠ cellSize then none
  else
    let header := packet.take cellHeaderSize
    if header.getD 0 0 ≠ protocolVersion ∨ knownClass (header.getD 1 0) = false ∨
        knownDirection (header.getD 2 0) = false ∨ header.getD 3 0 ≠ 0 then none
    else
      let epoch := readUint64BE header 4
      let circuitId := (header.take 28).drop 12
      let counter := readUint64BE header 28
      if o.valid = false ∨ header.getD 1 0 ≠ o.classByte ∨ header.getD 2 0 ≠ o.directionByte ∨
          (epoch : Int) ≠ o.epoch ∨ equal circuitId o.circuitId = false then none
      else do
        let data ← associatedData alloc header
        let plaintext ← suiteOpen a alloc o.key o.noncePrefix counter data
          (packet.drop cellHeaderSize)
        if plaintext.length ≠ cellBodySize then none
        else
          let payloadLength := payloadLengthOf plaintext
          if maxCellPayload < payloadLength then none
          else some (counter, (plaintext.take (2 + payloadLength)).drop 2)

/-! ## Reusing scratch -/

structure CellContext where
  key : Bytes
  noncePrefix : Bytes
  nonce : Bytes
  header : Bytes
  data : Bytes
  body : Bytes
  ciphertext : Bytes
  padding : Bytes
  destroyed : Bool
  authenticatedCounter : Option Nat
  deriving DecidableEq, Repr

namespace CellContext

/-- `reusableContext`. Its scratch is cleared when it is allocated. -/
def create (o : SealOptions) (sealing : Bool) : Option CellContext :=
  if o.valid = false then none
  else do
    let key ← setBytes (zeros 32) o.key 0
    let noncePrefix ← setBytes (zeros 16) o.noncePrefix 0
    let header := (zeros cellHeaderSize).set 0 protocolVersion
    let header := header.set 1 o.classByte
    let header := header.set 2 o.directionByte
    let header := header.set 3 0
    let header := writeUint64BE header o.epoch.toNat 4
    let header ← setBytes header o.circuitId 12
    return {
      key
      noncePrefix
      nonce := zeros 24
      header
      data := zeros (cellHeaderDomain.length + cellHeaderSize)
      body := zeros cellBodySize
      ciphertext := zeros (cellBodySize + aeadTagBytes)
      padding := zeros (if sealing then maxCellPayload else 0)
      destroyed := false
      authenticatedCounter := none }

def destroy (ctx : CellContext) : CellContext :=
  { ctx with destroyed := true, authenticatedCounter := none }

def clear (value : Bytes) : Bytes := zeros value.length

def clearTransient (ctx : CellContext) : CellContext :=
  { ctx with
    nonce := clear ctx.nonce
    data := clear ctx.data
    body := clear ctx.body
    ciphertext := clear ctx.ciphertext
    padding := clear ctx.padding }

/-- The padding scratch after the hook, which runs only where padding is needed. -/
def fillPadding (ctx : CellContext) (fill : Bytes) (paddingSize : Nat) : Option Bytes :=
  if 0 < paddingSize then setBytes ctx.padding fill 0 else some ctx.padding

/-- `sealInto` up to its end: the context with the scratch it has written, and
the output. `fill` is what the padding hook fills the scratch with. -/
def trySealInto (ctx : CellContext) (a : Aead) (packetOutput payload : Bytes) (packetOffset : Int)
    (fill : Bytes) (counter : Int) : Option (CellContext × Bytes) :=
  if ctx.destroyed then none
  else if packetOffset < 0 ∨ packetOutput.length - packetOffset < cellSize ∨
      maxCellPayload < payload.length then none
  else do
    let body := writeUint16BE ctx.body payload.length 0
    let body ← setBytes body payload 2
    let paddingSize := maxCellPayload - payload.length
    let padding ← ctx.fillPadding fill paddingSize
    let body := copyLoop padding (2 + payload.length) 0 paddingSize body
    if uint64 counter = false then none
    else
      let nonce ← setBytes ctx.nonce ctx.noncePrefix 0
      let nonce := writeUint64BE nonce counter.toNat 16
      let data ← setBytes ctx.data cellHeaderDomain 0
      let headerOffset := cellHeaderDomain.length
      let data ← setBytes data ctx.header headerOffset
      let data := writeUint64BE data counter.toNat (headerOffset + 28)
      let ciphertext ← setBytes ctx.ciphertext (a.encrypt body data nonce ctx.key) 0
      let offset := packetOffset.toNat
      let packetOutput := copyLoop data offset headerOffset cellHeaderSize packetOutput
      let packetOutput ← setBytes packetOutput ciphertext (offset + cellHeaderSize)
      return ({ ctx with nonce, data, body, ciphertext, padding }, packetOutput)

/-- The bytes of the output a failed `sealInto` clears. -/
def clearOutputRange (output : Bytes) (offset : Int) (length : Nat) : Bytes :=
  if offset < 0 then output
  else
    let stop := min output.length (offset.toNat + length)
    output.take offset.toNat ++ zeros (stop - offset.toNat) ++ output.drop (max offset.toNat stop)

def sealInto (ctx : CellContext) (a : Aead) (packetOutput payload : Bytes) (packetOffset : Int)
    (fill : Bytes) (counter : Int) : CellContext × Bytes × Bool :=
  match ctx.trySealInto a packetOutput payload packetOffset fill counter with
  | some (ctx, packetOutput) => (ctx.clearTransient, packetOutput, true)
  | none => (ctx.destroy, clearOutputRange packetOutput packetOffset cellSize, false)

/-- `openInto` up to its end. -/
def tryOpenInto (ctx : CellContext) (a : Aead) (packet bodyOutput : Bytes) :
    Option (CellContext × Bytes × Nat) :=
  if ctx.destroyed then none
  else if bodyOutput.length ≠ cellBodySize ∨ packet.length ≠ cellSize then none
  else if (List.range 28).any (fun i => packet.getD i 0 != ctx.header.getD i 0) then none
  else do
    let counter := readUint64BE packet 28
    let nonce ← setBytes ctx.nonce ctx.noncePrefix 0
    let nonce := writeUint64BE nonce counter 16
    let data ← setBytes ctx.data cellHeaderDomain 0
    let headerOffset := cellHeaderDomain.length
    let data := copyLoop packet headerOffset 0 cellHeaderSize data
    let ciphertext := copyLoop packet 0 cellHeaderSize (cellBodySize + aeadTagBytes) ctx.ciphertext
    let opened ← a.decrypt ciphertext data nonce ctx.key
    let body ← setBytes ctx.body opened 0
    let payloadLength := payloadLengthOf body
    if maxCellPayload < payloadLength then none
    else
      let bodyOutput ← setBytes bodyOutput body 0
      return ({ ctx with nonce, data, body, ciphertext, authenticatedCounter := some counter },
        bodyOutput, payloadLength)

/-- `openInto`: the body with its length, or a destroyed context and a cleared
output. -/
def openInto (ctx : CellContext) (a : Aead) (packet bodyOutput : Bytes) :
    CellContext × Bytes × Option Nat :=
  match ctx.tryOpenInto a packet bodyOutput with
  | some (ctx, bodyOutput, payloadLength) => (ctx.clearTransient, bodyOutput, some payloadLength)
  | none => (ctx.destroy, clear bodyOutput, none)

end CellContext

end HyperDht.Private
