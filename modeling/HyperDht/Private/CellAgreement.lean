import HyperDht.Private.CellBuffers

/-!
# The two cell codecs agree

Whatever their buffers held before, `sealPacket` and `sealInto` put the same
bytes together, and `openPacket` and `openInto` accept the same packets:
comparing the first 28 bytes of a header is the same as parsing its fields.
-/

namespace HyperDht.Private

def Sized (alloc : Nat → Bytes) : Prop := ∀ size, (alloc size).length = size

theorem allocateScratch_eq {alloc : Nat → Bytes} (h : Sized alloc) (size : Nat) :
    allocateScratch alloc size = some (alloc size) := if_pos (h size)

namespace SealOptions

/-- The first 28 bytes of a header, the part without the counter. -/
def fixedHeader (o : SealOptions) : Bytes :=
  [protocolVersion, o.classByte, o.directionByte, 0] ++ writeUintBE 8 o.epoch.toNat ++ o.circuitId

theorem header_eq (o : SealOptions) (counter : Nat) :
    o.header counter = o.fixedHeader ++ writeUintBE 8 counter := rfl

/-- The checks that `valid` makes. -/
structure Checked (o : SealOptions) : Prop where
  key : o.key.length = 32
  noncePrefix : o.noncePrefix.length = 16
  cellClass : o.cellClass.isSome = true
  direction : o.direction.isSome = true
  nonneg : 0 ≤ o.epoch
  epoch : o.epoch.toNat < 2 ^ 64
  circuitId : o.circuitId.length = 16

theorem checked {o : SealOptions} (h : o.valid = true) : o.Checked := by
  simp only [valid, Bool.and_eq_true, beq_iff_eq, decide_eq_true_eq] at h
  obtain ⟨⟨⟨⟨⟨⟨hk, hn⟩, hc⟩, hd⟩, h0⟩, he⟩, hi⟩ := h
  exact ⟨hk, hn, hc, hd, h0, by omega, hi⟩

theorem Checked.length_fixedHeader {o : SealOptions} (h : o.Checked) :
    o.fixedHeader.length = 28 := by
  simp [fixedHeader, h.circuitId]

theorem Checked.length_header {o : SealOptions} (h : o.Checked) (counter : Nat) :
    (o.header counter).length = cellHeaderSize := by
  rw [header_eq, List.length_append, h.length_fixedHeader, length_writeUintBE]
  rfl

end SealOptions

def cellPacket (a : Aead) (o : SealOptions) (counter : Nat) (payload padding : Bytes) : Bytes :=
  o.header counter ++ a.encrypt (writeUintBE 2 payload.length ++ payload ++ padding)
    (cellHeaderDomain ++ o.header counter) (o.noncePrefix ++ writeUintBE 8 counter) o.key

section

variable {a : Aead} {alloc : Nat → Bytes} {o : SealOptions}

/-! ## Writing a cell -/

theorem set_four {buffer : Bytes} (h : 4 ≤ buffer.length) (x y z u : UInt8) :
    (((buffer.set 0 x).set 1 y).set 2 z).set 3 u = [x, y, z, u] ++ buffer.drop 4 := by
  match buffer, h with
  | _ :: _ :: _ :: _ :: _, _ => rfl

/-- The fields both headers start with, written into any buffer. -/
theorem fixedHeader_written (ho : o.Checked) {buffer : Bytes}
    (h : buffer.length = cellHeaderSize) :
    setBytes (writeUint64BE ((((buffer.set 0 protocolVersion).set 1 o.classByte).set 2
      o.directionByte).set 3 0) o.epoch.toNat 4) o.circuitId 12 =
      some (o.fixedHeader ++ buffer.drop 28) := by
  have h36 : buffer.length = 36 := h
  have hepoch := writeUint64BE_next (w := [protocolVersion, o.classByte, o.directionByte, 0])
    (r := buffer.drop 4) (v := o.epoch.toNat) rfl (by rw [List.length_drop]; omega)
  have hid := setBytes_next (w := [protocolVersion, o.classByte, o.directionByte, 0] ++
    writeUintBE 8 o.epoch.toNat) (r := (buffer.drop 4).drop 8) (s := o.circuitId) (i := 12)
    (by simp) (by rw [ho.circuitId]; simp only [List.length_drop]; omega)
  simp only [List.length_cons, List.length_nil] at hepoch
  rw [set_four (by omega), hepoch, hid, ho.circuitId, List.drop_drop, List.drop_drop]
  rfl

theorem sealHeader_eq (hs : Sized alloc) (ho : o.Checked) (counter : Nat) :
    sealHeader alloc o counter = some (o.header counter) := by
  have h36 : (alloc cellHeaderSize).length = 36 := hs _
  unfold sealHeader
  rw [allocateScratch_eq hs]
  simp only [Option.bind_eq_bind, Option.bind_some, Option.pure_def]
  rw [fixedHeader_written ho (hs _), Option.bind_some,
    writeUint64BE_next ho.length_fixedHeader.symm (by rw [List.length_drop]; omega), List.drop_drop,
    List.drop_of_length_le (by omega), List.append_nil]
  rfl

theorem nonceFor_eq (hs : Sized alloc) {noncePrefix : Bytes} (h : noncePrefix.length = 16)
    (counter : Nat) : nonceFor alloc noncePrefix counter =
      some (noncePrefix ++ writeUintBE 8 counter) := by
  have h24 : (alloc 24).length = 24 := hs _
  unfold nonceFor
  rw [allocateScratch_eq hs]
  simp only [Option.bind_eq_bind, Option.bind_some, Option.pure_def]
  rw [setBytes_start (by omega), Option.bind_some, writeUint64BE_next h.symm (by rw [List.length_drop]; omega),
    List.drop_drop, List.drop_of_length_le (by omega), List.append_nil]

theorem length_cellHeaderDomain : cellHeaderDomain.length = 38 := by decide +kernel

/-- Domain and header, written into any buffer of their size. -/
theorem data_written {buffer header : Bytes} (hb : buffer.length = 38 + cellHeaderSize)
    (hh : header.length = cellHeaderSize) :
    (setBytes buffer cellHeaderDomain 0).bind
      (fun data => setBytes data header cellHeaderDomain.length) =
      some (cellHeaderDomain ++ header) := by
  have hdrop : (buffer.drop cellHeaderDomain.length).length = header.length := by
    rw [List.length_drop, hb, length_cellHeaderDomain, hh]
    omega
  rw [setBytes_start (by rw [length_cellHeaderDomain, hb]; omega), Option.bind_some,
    setBytes_next rfl hdrop.ge, List.drop_of_length_le hdrop.le,
    List.append_nil]

theorem associatedData_eq (hs : Sized alloc) {header : Bytes}
    (hh : header.length = cellHeaderSize) :
    associatedData alloc header = some (cellHeaderDomain ++ header) := by
  unfold associatedData
  rw [allocateScratch_eq hs]
  simp only [Option.bind_eq_bind, Option.bind_some]
  refine data_written ?_ hh
  rw [hs, length_cellHeaderDomain]

theorem payload_written {buffer payload : Bytes} (hb : buffer.length = cellBodySize)
    (hp : payload.length ≤ maxCellPayload) :
    setBytes (writeUint16BE buffer payload.length 0) payload 2 =
      some ((writeUintBE 2 payload.length ++ payload) ++ buffer.drop (2 + payload.length)) := by
  have hb' : buffer.length = 1148 := hb
  have hp' : payload.length ≤ 1146 := hp
  rw [writeUint16BE_start (by omega),
    setBytes_next (length_writeUintBE 2 _).symm (by rw [List.length_drop]; omega), List.drop_drop]

/-- The padding `seal` puts in: its hook is not called for none. -/
def paddingOf (padding : Nat → Bytes) (paddingSize : Nat) : Bytes :=
  if 0 < paddingSize then padding paddingSize else []

theorem length_paddingOf {padding : Nat → Bytes} {n : Nat}
    (h : 0 < n → (padding n).length = n) : (paddingOf padding n).length = n := by
  unfold paddingOf
  split
  · next hn => exact h hn
  · next hn => exact (Nat.eq_zero_of_not_pos hn).symm

theorem sealBody_eq (hs : Sized alloc) {payload : Bytes} (hp : payload.length ≤ maxCellPayload)
    {padding : Nat → Bytes} (hpad : 0 < maxCellPayload - payload.length →
      (padding (maxCellPayload - payload.length)).length = maxCellPayload - payload.length) :
    sealBody alloc payload padding = some (writeUintBE 2 payload.length ++ payload ++
      paddingOf padding (maxCellPayload - payload.length)) := by
  have hb : (alloc cellBodySize).length = 1148 := hs _
  have hp' : payload.length ≤ 1146 := hp
  have hmax : maxCellPayload = 1146 := rfl
  unfold sealBody paddingOf
  rw [allocateScratch_eq hs]
  simp only [Option.bind_eq_bind, Option.bind_some]
  rw [payload_written (hs _) hp, Option.bind_some]
  have hlen : 2 + payload.length = (writeUintBE 2 payload.length ++ payload).length := by simp
  have hrest : ((alloc cellBodySize).drop (2 + payload.length)).length =
      maxCellPayload - payload.length := by
    rw [List.length_drop]
    omega
  split
  · next hz =>
    rw [if_neg (not_not.mpr (hpad hz)), setBytes_next hlen (by rw [hrest, hpad hz]),
      List.drop_of_length_le (by rw [hrest, hpad hz]), List.append_nil]
  · rw [List.append_nil, List.drop_of_length_le (by omega), List.append_nil]

theorem length_cellPacket (ha : a.Lawful) (ho : o.Checked) {payload padding : Bytes}
    (h : payload.length + padding.length = maxCellPayload) (counter : Nat) :
    (cellPacket a o counter payload padding).length = cellSize := by
  have h' : payload.length + padding.length = 1146 := h
  have h36 : (o.header counter).length = 36 := ho.length_header counter
  have htag : aeadTagBytes = 16 := rfl
  have hsize : cellSize = 1200 := rfl
  simp only [cellPacket, List.length_append, h36, ha.length, length_writeUintBE]
  omega

theorem sealPacket_eq (ha : a.Lawful) (hs : Sized alloc) (hv : o.valid = true) {counter : Int}
    (hc : uint64 counter = true) {payload : Bytes} (hp : payload.length ≤ maxCellPayload)
    {padding : Nat → Bytes} (hpad : 0 < maxCellPayload - payload.length →
      (padding (maxCellPayload - payload.length)).length = maxCellPayload - payload.length) :
    sealPacket a alloc o counter payload padding = some (cellPacket a o counter.toNat payload
      (paddingOf padding (maxCellPayload - payload.length))) := by
  have ho := SealOptions.checked hv
  have hp' : payload.length ≤ 1146 := hp
  have hmax : maxCellPayload = 1146 := rfl
  have hbody : (writeUintBE 2 payload.length ++ payload ++
      paddingOf padding (maxCellPayload - payload.length)).length = 1148 := by
    simp only [List.length_append, length_writeUintBE, length_paddingOf hpad]
    omega
  have h36 : (o.header counter.toNat).length = 36 := ho.length_header _
  have hrange : counter.toNat < 2 ^ 64 := by
    simp only [uint64, Bool.and_eq_true, decide_eq_true_eq] at hc
    omega
  have hsuite : suiteSeal a alloc o.key o.noncePrefix counter.toNat
      (cellHeaderDomain ++ o.header counter.toNat) (writeUintBE 2 payload.length ++ payload ++
        paddingOf padding (maxCellPayload - payload.length)) =
      some (a.encrypt (writeUintBE 2 payload.length ++ payload ++
        paddingOf padding (maxCellPayload - payload.length)) (cellHeaderDomain ++ o.header counter.toNat)
        (o.noncePrefix ++ writeUintBE 8 counter.toNat) o.key) := by
    unfold suiteSeal
    rw [if_neg (by simp [ho.key, ho.noncePrefix]), if_neg, if_neg, nonceFor_eq hs ho.noncePrefix]
    · rfl
    · rw [hbody]
      decide
    · rw [List.length_append, length_cellHeaderDomain, h36]
      unfold maxAssociatedData
      omega
  have hcipher : (a.encrypt (writeUintBE 2 payload.length ++ payload ++
      paddingOf padding (maxCellPayload - payload.length)) (cellHeaderDomain ++ o.header counter.toNat)
      (o.noncePrefix ++ writeUintBE 8 counter.toNat) o.key).length =
      cellBodySize + aeadTagBytes := by
    rw [ha.length, hbody]
    rfl
  have hroom : ((alloc cellSize).drop (o.header counter.toNat).length).length =
      cellBodySize + aeadTagBytes := by
    rw [List.length_drop, hs, h36]
    rfl
  unfold sealPacket
  rw [if_neg (by simp [hv, hp]), sealBody_eq hs hp hpad]
  simp only [Option.bind_eq_bind, Option.bind_some, hc, Bool.true_eq_false, if_false]
  rw [sealHeader_eq hs ho, Option.bind_some, associatedData_eq hs (ho.length_header _),
    Option.bind_some, hsuite, Option.bind_some, if_neg (not_not.mpr hcipher),
    allocateScratch_eq hs, Option.bind_some, setBytes_start (by rw [h36, hs]; decide),
    Option.bind_some, setBytes_next (ho.length_header _).symm (by rw [hroom, hcipher]),
    List.drop_of_length_le (by rw [hroom, hcipher]), List.append_nil]
  rfl

/-! ## Reused scratch -/

namespace CellContext

/-- A live context of the options `o`. Its transient scratch may hold anything. -/
structure Ready (ctx : CellContext) (o : SealOptions) (sealing : Bool) : Prop where
  valid : o.valid = true
  live : ctx.destroyed = false
  key : ctx.key = o.key
  noncePrefix : ctx.noncePrefix = o.noncePrefix
  header : ctx.header = o.fixedHeader ++ zeros 8
  nonce : ctx.nonce.length = 24
  data : ctx.data.length = 38 + cellHeaderSize
  body : ctx.body.length = cellBodySize
  ciphertext : ctx.ciphertext.length = cellBodySize + aeadTagBytes
  padding : sealing = true → ctx.padding.length = maxCellPayload

theorem create_eq_some (hv : o.valid = true) (sealing : Bool) :
    ∃ ctx, create o sealing = some ctx ∧ ctx.Ready o sealing := by
  have ho := SealOptions.checked hv
  unfold create
  rw [if_neg (by simp [hv])]
  simp only [Option.bind_eq_bind, Option.pure_def]
  rw [setBytes_all (by rw [ho.key]; rfl), Option.bind_some,
    setBytes_all (by rw [ho.noncePrefix]; rfl), Option.bind_some,
    fixedHeader_written ho (by rfl), Option.bind_some]
  refine ⟨_, rfl, ⟨hv, rfl, rfl, rfl, rfl, List.length_replicate, ?_, List.length_replicate,
    List.length_replicate, fun h => ?_⟩⟩
  · rw [← length_cellHeaderDomain]
    exact List.length_replicate
  · subst h
    exact List.length_replicate

theorem create_eq_none (hv : o.valid = false) (sealing : Bool) : create o sealing = none :=
  if_pos hv

theorem Ready.clearTransient {ctx : CellContext} {sealing : Bool} (h : ctx.Ready o sealing) :
    ctx.clearTransient.Ready o sealing := by
  have hlen : ∀ b : Bytes, (clear b).length = b.length := fun b => List.length_replicate
  exact ⟨h.valid, h.live, h.key, h.noncePrefix, h.header, (hlen _).trans h.nonce,
    (hlen _).trans h.data, (hlen _).trans h.body, (hlen _).trans h.ciphertext,
    fun hsealing => (hlen _).trans (h.padding hsealing)⟩

theorem Ready.nonce_written {ctx : CellContext} {sealing : Bool} (h : ctx.Ready o sealing)
    (counter : Nat) : (setBytes ctx.nonce ctx.noncePrefix 0).map
      (fun nonce => writeUint64BE nonce counter 16) =
      some (o.noncePrefix ++ writeUintBE 8 counter) := by
  have ho := SealOptions.checked h.valid
  have hprefix : ctx.noncePrefix.length = 16 := by rw [h.noncePrefix, ho.noncePrefix]
  have hnonce := h.nonce
  rw [setBytes_start (by omega), Option.map_some,
    writeUint64BE_next hprefix.symm (by rw [List.length_drop]; omega), List.drop_drop,
    List.drop_of_length_le (by omega), List.append_nil, h.noncePrefix]

/-- `sealInto` puts together the packet of the cell, whatever its scratch held. -/
theorem Ready.trySealInto {ctx : CellContext} (ha : a.Lawful) (h : ctx.Ready o true)
    {payload : Bytes} (hp : payload.length ≤ maxCellPayload) {fill : Bytes}
    (hf : fill.length = maxCellPayload) {counter : Int} (hc : uint64 counter = true)
    {out : Bytes} {offset : Int} (h0 : 0 ≤ offset) (hfit : cellSize ≤ out.length - offset) :
    ∃ ctx', ctx.trySealInto a out payload offset fill counter = some (ctx',
      out.take offset.toNat ++ cellPacket a o counter.toNat payload
        (fill.take (maxCellPayload - payload.length)) ++ out.drop (offset.toNat + cellSize)) ∧
      ctx'.Ready o true := by
  have ho := SealOptions.checked h.valid
  have hp' : payload.length ≤ 1146 := hp
  have hmax : maxCellPayload = 1146 := rfl
  have hsize : cellSize = 1200 := rfl
  have hheadsize : cellHeaderSize = 36 := rfl
  have hbodysize : ctx.body.length = 1148 := h.body
  have hfixed := ho.length_fixedHeader
  -- the body
  have hpadding : ∃ padding : Bytes,
      ctx.fillPadding fill (maxCellPayload - payload.length) = some padding ∧
      padding.length = maxCellPayload ∧
      padding.take (maxCellPayload - payload.length) =
        fill.take (maxCellPayload - payload.length) := by
    unfold fillPadding
    split
    · exact ⟨fill, setBytes_all (by rw [hf, h.padding rfl]), hf, rfl⟩
    · next hz =>
      refine ⟨ctx.padding, rfl, h.padding rfl, ?_⟩
      rw [Nat.eq_zero_of_not_pos hz, List.take_zero, List.take_zero]
  obtain ⟨padding, hpad, hpadlen, hpadtake⟩ := hpadding
  have hbody : copyLoop padding (2 + payload.length) 0 (maxCellPayload - payload.length)
      ((writeUintBE 2 payload.length ++ payload) ++ ctx.body.drop (2 + payload.length)) =
      writeUintBE 2 payload.length ++ payload ++ fill.take (maxCellPayload - payload.length) := by
    rw [copyLoop_next (by simp) (by rw [List.length_drop]; omega) (by omega), List.drop_zero,
      hpadtake, List.drop_drop, List.drop_of_length_le (by omega), List.append_nil]
  -- the associated data
  have hheader : ctx.header.length = cellHeaderSize := by
    rw [h.header, List.length_append, hfixed]
    rfl
  have hdata := data_written h.data hheader
  obtain ⟨data₁, hdata₁, hdata₂⟩ := Option.bind_eq_some_iff.mp hdata
  have hcounted : writeUint64BE (cellHeaderDomain ++ ctx.header) counter.toNat
      (cellHeaderDomain.length + 28) = cellHeaderDomain ++ o.header counter.toNat := by
    rw [h.header, ← List.append_assoc, writeUint64BE_next (by rw [List.length_append, hfixed])
      (by rw [zeros, List.length_replicate]), List.drop_of_length_le
      (by rw [zeros, List.length_replicate]), List.append_nil, List.append_assoc]
    rfl
  obtain ⟨nonce₁, hnonce₁, hnonce⟩ := Option.map_eq_some_iff.mp (h.nonce_written counter.toNat)
  -- the ciphertext and the output
  set body := writeUintBE 2 payload.length ++ payload ++
    fill.take (maxCellPayload - payload.length) with hbodydef
  have hbodylen : body.length = 1148 := by
    simp only [hbodydef, List.length_append, length_writeUintBE, List.length_take, hf]
    omega
  set cipher := a.encrypt body (cellHeaderDomain ++ o.header counter.toNat)
    (o.noncePrefix ++ writeUintBE 8 counter.toNat) o.key with hcipher
  have hcipherlen : cipher.length = cellBodySize + aeadTagBytes := by
    rw [hcipher, ha.length, hbodylen]
    rfl
  have hciphersize : cipher.length = 1164 := hcipherlen
  have hslice : ((cellHeaderDomain ++ o.header counter.toNat).drop cellHeaderDomain.length).take
      cellHeaderSize = o.header counter.toNat := by
    rw [List.drop_left, List.take_of_length_le (by rw [ho.length_header])]
  have hout : copyLoop (cellHeaderDomain ++ o.header counter.toNat) offset.toNat
      cellHeaderDomain.length cellHeaderSize out = (out.take offset.toNat ++
        o.header counter.toNat) ++ (out.drop offset.toNat).drop cellHeaderSize := by
    have hcopy := copyLoop_next (x := cellHeaderDomain ++ o.header counter.toNat)
      (w := out.take offset.toNat) (r := out.drop offset.toNat) (i := offset.toNat)
      (n := cellHeaderSize) (k := cellHeaderDomain.length)
      (by rw [List.length_take]; omega) (by rw [List.length_drop]; omega)
      (by rw [List.length_append, ho.length_header])
    rwa [List.take_append_drop, hslice] at hcopy
  have hlast := setBytes_next (w := out.take offset.toNat ++ o.header counter.toNat)
    (r := (out.drop offset.toNat).drop cellHeaderSize) (s := cipher)
    (i := offset.toNat + cellHeaderSize)
    (by rw [List.length_append, List.length_take, ho.length_header]; omega)
    (by rw [hciphersize]; simp only [List.length_drop]; omega)
  have hwhole : (out.take offset.toNat ++ o.header counter.toNat ++ cipher) ++
      ((out.drop offset.toNat).drop cellHeaderSize).drop cipher.length =
      out.take offset.toNat ++ cellPacket a o counter.toNat payload
        (fill.take (maxCellPayload - payload.length)) ++ out.drop (offset.toNat + cellSize) := by
    have hpacket : cellPacket a o counter.toNat payload
        (fill.take (maxCellPayload - payload.length)) = o.header counter.toNat ++ cipher := rfl
    have hend : offset.toNat + (cellHeaderSize + cipher.length) = offset.toNat + cellSize := by
      omega
    rw [hpacket, List.drop_drop, List.drop_drop, hend, List.append_assoc (out.take offset.toNat)]
  unfold CellContext.trySealInto
  rw [if_neg (by simp [h.live]), if_neg (by omega)]
  simp only [Option.bind_eq_bind, Option.pure_def]
  rw [payload_written h.body hp, Option.bind_some, hpad, Option.bind_some, hbody,
    if_neg (by simp [hc]), hnonce₁, Option.bind_some, hdata₁, Option.bind_some, hdata₂,
    Option.bind_some, hnonce, hcounted, h.key,
    setBytes_all (by rw [h.ciphertext]; exact hcipherlen), Option.bind_some, hout, hlast,
    Option.bind_some]
  rw [hwhole]
  refine ⟨_, rfl, ?_⟩
  refine ⟨h.valid, h.live, rfl, h.noncePrefix, h.header, ?_, ?_, hbodylen, hcipherlen,
    fun _ => hpadlen⟩
  · show (o.noncePrefix ++ writeUintBE 8 counter.toNat).length = 24
    rw [List.length_append, ho.noncePrefix, length_writeUintBE]
  · show (cellHeaderDomain ++ o.header counter.toNat).length = _
    rw [List.length_append, length_cellHeaderDomain, ho.length_header]

end CellContext

/-! ## Opening a cell -/

/-- The AEAD as `openInto` of a link takes it. -/
def Aead.opening (a : Aead) (x : AeadOpening) : Option Bytes :=
  a.decrypt x.ciphertext x.associatedData x.nonce x.key

theorem take_header (ho : o.Checked) (counter : Nat) :
    (o.header counter).take 28 = o.fixedHeader := by
  rw [SealOptions.header_eq, ← ho.length_fixedHeader, List.take_left]

theorem getD_take {buffer : Bytes} {n i : Nat} (h : i < n) :
    (buffer.take n).getD i 0 = buffer.getD i 0 := by
  rw [List.getD_eq_getElem?_getD, List.getD_eq_getElem?_getD, List.getElem?_take_of_lt h]

theorem take_fields {packet : Bytes} (h : 28 ≤ packet.length) :
    packet.take 28 = ([packet.getD 0 0, packet.getD 1 0, packet.getD 2 0, packet.getD 3 0] ++
      (packet.drop 4).take 8) ++ (packet.take 28).drop 12 := by
  match packet, h with
  | x :: y :: z :: u :: rest, h =>
    have hrest : rest.take 24 = rest.take 8 ++ (rest.take 24).drop 8 := by
      conv_lhs => rw [← List.take_append_drop 8 (rest.take 24), List.take_take]
      rfl
    simpa using hrest

/-- Comparing the bytes is comparing the fields. -/
theorem fixedHeader_iff (ho : o.Checked) {packet : Bytes} (h : 28 ≤ packet.length) :
    packet.take 28 = o.fixedHeader ↔ packet.getD 0 0 = protocolVersion ∧
      packet.getD 1 0 = o.classByte ∧ packet.getD 2 0 = o.directionByte ∧ packet.getD 3 0 = 0 ∧
      readU64 (packet.drop 4) = o.epoch.toNat ∧ (packet.take 28).drop 12 = o.circuitId := by
  have height : ((packet.drop 4).take 8).length = 8 := by
    rw [List.length_take, List.length_drop]
    omega
  have hread : readU64 (packet.drop 4) = readU64 ((packet.drop 4).take 8) := by
    unfold readU64
    rw [List.take_take]
    rfl
  have hid : ((packet.take 28).drop 12).length = o.circuitId.length := by
    rw [List.length_drop, List.length_take, ho.circuitId]
    omega
  rw [hread, readU64_eq_iff height ho.epoch]
  nth_rewrite 1 [take_fields h]
  unfold SealOptions.fixedHeader
  constructor
  · intro he
    obtain ⟨he, hi⟩ := List.append_inj he (by simp [height])
    obtain ⟨hf, he⟩ := List.append_inj he (by simp)
    simp only [List.cons.injEq, and_true] at hf
    exact ⟨hf.1, hf.2.1, hf.2.2.1, hf.2.2.2, he, hi⟩
  · rintro ⟨h0, h1, h2, h3, he, hi⟩
    rw [h0, h1, h2, h3, he, hi]

theorem knownClass_classByte (o : SealOptions) : knownClass o.classByte = true := by
  unfold SealOptions.classByte
  split <;> decide

theorem knownDirection_directionByte (o : SealOptions) :
    knownDirection o.directionByte = true := by
  unfold SealOptions.directionByte
  split <;> decide

theorem payloadLengthOf_eq {body : Bytes} (h : 2 ≤ body.length) :
    payloadLengthOf body = (body.take 2).foldl (fun n b => n * 256 + b.toNat) 0 := by
  unfold payloadLengthOf
  rw [shiftLeft_or_toNat]
  match body, h with
  | x :: y :: rest, _ => simp

/-- What the AEAD opens of a packet is a body. -/
theorem length_of_decrypt (ha : a.Lawful) {c ad n k m : Bytes}
    (hc : c.length = cellBodySize + aeadTagBytes) (h : a.decrypt c ad n k = some m) :
    m.length = cellBodySize := by
  have := ha.length m ad n k
  rw [← ha.rejects c ad n k m h, hc] at this
  omega

theorem openPacket_eq (ha : a.Lawful) (hs : Sized alloc) (hv : o.valid = true) (packet : Bytes) :
    openPacket a alloc o packet = openInto a.opening o packet := by
  have ho := SealOptions.checked hv
  unfold openPacket openInto
  by_cases hlen : packet.length ≠ cellSize
  · rw [if_pos hlen, if_pos hlen]
  rw [if_neg hlen, if_neg hlen]
  have hsize : packet.length = 1200 := not_not.mp hlen
  have hheader : (packet.take cellHeaderSize).length = cellHeaderSize := by
    rw [List.length_take, hsize]
    rfl
  have hheader' : (packet.take cellHeaderSize).length = 36 := hheader
  have hgetD : ∀ i < 36, (packet.take cellHeaderSize).getD i 0 = packet.getD i 0 :=
    fun i hi => getD_take hi
  have hepoch : readUint64BE (packet.take cellHeaderSize) 4 = readU64 (packet.drop 4) := by
    rw [readUint64BE_eq (by omega)]
    unfold readU64
    rw [List.drop_take, List.take_take]
    rfl
  have hcounter : readUint64BE (packet.take cellHeaderSize) 28 = readU64 (packet.drop 28) := by
    rw [readUint64BE_eq (by omega)]
    unfold readU64
    rw [List.drop_take, List.take_take]
    rfl
  have hid : ((packet.take cellHeaderSize).take 28).drop 12 = (packet.take 28).drop 12 := by
    rw [List.take_take]
    rfl
  have hfields := fixedHeader_iff ho (show 28 ≤ packet.length by omega)
  dsimp only
  rw [hgetD 0 (by decide), hgetD 1 (by decide), hgetD 2 (by decide), hgetD 3 (by decide), hepoch,
    hcounter, hid, take_header ho]
  by_cases hfix : packet.take 28 = o.fixedHeader
  · obtain ⟨h0, h1, h2, h3, he, hi⟩ := hfields.mp hfix
    have hequal : equal ((packet.take 28).drop 12) o.circuitId = true := equal_iff.mpr hi
    have hmatch : ¬ (o.valid = false ∨ packet.getD 1 0 ≠ o.classByte ∨
        packet.getD 2 0 ≠ o.directionByte ∨ (readU64 (packet.drop 4) : Int) ≠ o.epoch ∨
        equal ((packet.take 28).drop 12) o.circuitId = false) := by
      have hnonneg := ho.nonneg
      rintro (h | h | h | h | h)
      · simp [hv] at h
      · exact h h1
      · exact h h2
      · exact h (by rw [he]; omega)
      · simp [hequal] at h
    have hrest : (packet.drop cellHeaderSize).length = cellBodySize + aeadTagBytes := by
      rw [List.length_drop, hsize]
      rfl
    have hsuite : suiteOpen a alloc o.key o.noncePrefix (readU64 (packet.drop 28))
        (cellHeaderDomain ++ packet.take cellHeaderSize) (packet.drop cellHeaderSize) =
        a.opening ⟨o.key, o.noncePrefix ++ writeUintBE 8 (readU64 (packet.drop 28)),
          cellHeaderDomain ++ packet.take cellHeaderSize, packet.drop cellHeaderSize⟩ := by
      unfold suiteOpen
      rw [if_neg (by simp [ho.key, ho.noncePrefix]), if_neg, if_neg (by rw [hrest]; decide),
        nonceFor_eq hs ho.noncePrefix]
      · rfl
      · have hlt := readU64_lt (packet.drop 28)
        rw [List.length_append, length_cellHeaderDomain, hheader']
        unfold maxAssociatedData
        omega
    have hknown : ¬ (packet.getD 0 0 ≠ protocolVersion ∨ knownClass (packet.getD 1 0) = false ∨
        knownDirection (packet.getD 2 0) = false ∨ packet.getD 3 0 ≠ 0) := by
      rw [h1, h2, knownClass_classByte, knownDirection_directionByte]
      rintro (h | h | h | h)
      · exact h h0
      · cases h
      · cases h
      · exact h h3
    rw [if_neg hknown, if_neg hmatch, if_neg (not_not.mpr hfix), associatedData_eq hs hheader]
    simp only [Option.bind_eq_bind, Option.bind_some, hsuite]
    cases hopen : a.opening ⟨o.key, o.noncePrefix ++ writeUintBE 8 (readU64 (packet.drop 28)),
        cellHeaderDomain ++ packet.take cellHeaderSize, packet.drop cellHeaderSize⟩ with
    | none => rfl
    | some body =>
      have hbody := length_of_decrypt ha hrest hopen
      have hbody' : body.length = 1148 := hbody
      rw [Option.bind_some, if_neg (not_not.mpr hbody), payloadLengthOf_eq (by omega),
        List.drop_take, Nat.add_sub_cancel_left]
  · rw [if_pos hfix]
    split
    · rfl
    · next hone =>
      split
      · rfl
      · next htwo =>
        simp only [not_or, ne_eq, not_not, Bool.not_eq_false] at hone htwo
        have hep : readU64 (packet.drop 4) = o.epoch.toNat := by
          have := htwo.2.2.2.1
          omega
        exact absurd (hfields.mpr ⟨hone.1, htwo.2.1, htwo.2.2.1, hone.2.2.2, hep,
          equal_iff.mp htwo.2.2.2.2⟩) hfix

/-- The comparison of the first `n` bytes, one at a time. -/
theorem any_ne_eq_false {n : Nat} {left right : Bytes} (hl : n ≤ left.length)
    (hr : n ≤ right.length) :
    (List.range n).any (fun i => left.getD i 0 != right.getD i 0) = false ↔
      left.take n = right.take n := by
  rw [List.any_eq_false]
  constructor
  · intro h
    apply List.ext_getElem?
    intro i
    by_cases hi : i < n
    · have := h i (List.mem_range.mpr hi)
      rw [List.getElem?_take_of_lt hi, List.getElem?_take_of_lt hi,
        List.getElem?_eq_getElem (show i < left.length by omega),
        List.getElem?_eq_getElem (show i < right.length by omega)]
      rw [List.getD_eq_getElem?_getD, List.getD_eq_getElem?_getD,
        List.getElem?_eq_getElem (show i < left.length by omega),
        List.getElem?_eq_getElem (show i < right.length by omega)] at this
      simpa using this
    · rw [List.getElem?_eq_none (by rw [List.length_take]; omega),
        List.getElem?_eq_none (by rw [List.length_take]; omega)]
  · intro h i hi
    have hlt := List.mem_range.mp hi
    rw [← getD_take hlt, h, getD_take hlt]
    simp

namespace CellContext

/-- The body an opener writes is a length and a payload. -/
def bodyPayload (body : Bytes) (payloadLength : Nat) : Bytes := (body.drop 2).take payloadLength

theorem Ready.tryOpenInto {ctx : CellContext} {sealing : Bool} (ha : a.Lawful)
    (h : ctx.Ready o sealing) (packet : Bytes) {out : Bytes} (hout : out.length = cellBodySize) :
    (Private.openInto a.opening o packet = none ∧ ctx.tryOpenInto a packet out = none) ∨
    ∃ counter payload ctx' body, Private.openInto a.opening o packet = some (counter, payload) ∧
      ctx.tryOpenInto a packet out = some (ctx', body, payload.length) ∧
      ctx'.authenticatedCounter = some counter ∧ bodyPayload body payload.length = payload ∧
      ctx'.Ready o sealing := by
  have ho := SealOptions.checked h.valid
  unfold Private.openInto CellContext.tryOpenInto
  rw [if_neg (show ¬ ctx.destroyed = true by simp [h.live])]
  by_cases hlen : packet.length ≠ cellSize
  · rw [if_pos hlen, if_pos (.inr hlen)]
    exact .inl ⟨rfl, rfl⟩
  have hsize : packet.length = 1200 := not_not.mp hlen
  have hheader : ctx.header.take 28 = o.fixedHeader := by
    rw [h.header, ← ho.length_fixedHeader, List.take_left]
  have hheaderLen : 28 ≤ ctx.header.length := by
    rw [h.header, List.length_append, ho.length_fixedHeader]
    omega
  have hany := any_ne_eq_false (n := 28) (show 28 ≤ packet.length by omega) hheaderLen
  have hguard : ¬ (out.length ≠ cellBodySize ∨ packet.length ≠ cellSize) := by
    rintro (hn | hn)
    · exact hn hout
    · exact hlen hn
  rw [if_neg hlen, if_neg hguard, take_header ho]
  rw [hheader] at hany
  by_cases hfix : packet.take 28 = o.fixedHeader
  swap
  · have hne : (List.range 28).any (fun i => packet.getD i 0 != ctx.header.getD i 0) = true := by
      cases hc : (List.range 28).any (fun i => packet.getD i 0 != ctx.header.getD i 0) with
      | true => rfl
      | false => exact absurd (hany.mp hc) hfix
    rw [if_pos hfix, if_pos hne]
    exact .inl ⟨rfl, rfl⟩
  rw [if_neg (not_not.mpr hfix), if_neg (by rw [hany.mpr hfix]; decide)]
  have hcounter : readUint64BE packet 28 = readU64 (packet.drop 28) :=
    readUint64BE_eq (by omega)
  obtain ⟨nonce₁, hnonce₁, hnonce⟩ :=
    Option.map_eq_some_iff.mp (h.nonce_written (readU64 (packet.drop 28)))
  have hdataLen : ctx.data.length = 74 := h.data
  have hdata : copyLoop packet cellHeaderDomain.length 0 cellHeaderSize
      (cellHeaderDomain ++ ctx.data.drop cellHeaderDomain.length) =
      cellHeaderDomain ++ packet.take cellHeaderSize := by
    have h36 : cellHeaderSize = 36 := rfl
    rw [copyLoop_next rfl (by rw [List.length_drop, length_cellHeaderDomain]; omega) (by omega),
      List.drop_zero, List.drop_drop, List.drop_of_length_le (by rw [length_cellHeaderDomain]; omega),
      List.append_nil]
  have hcipher : copyLoop packet 0 cellHeaderSize (cellBodySize + aeadTagBytes) ctx.ciphertext =
      packet.drop cellHeaderSize := by
    have hcopy := copyLoop_next (w := []) (r := ctx.ciphertext) (x := packet) (i := 0)
      (n := cellBodySize + aeadTagBytes) (k := cellHeaderSize) rfl (by rw [h.ciphertext])
      (by rw [hsize]; decide)
    rw [List.nil_append, List.nil_append] at hcopy
    have hnil : ctx.ciphertext.drop (cellBodySize + aeadTagBytes) = [] :=
      List.drop_of_length_le (by rw [h.ciphertext])
    rw [hcopy, hnil, List.append_nil,
      List.take_of_length_le (by rw [List.length_drop, hsize]; decide)]
  have hrest : (packet.drop cellHeaderSize).length = cellBodySize + aeadTagBytes := by
    rw [List.length_drop, hsize]
    rfl
  simp only [Option.bind_eq_bind, Option.pure_def]
  rw [hcounter, hnonce₁, Option.bind_some, setBytes_start
    (by rw [length_cellHeaderDomain, hdataLen]; decide), Option.bind_some, hdata, hcipher, hnonce,
    h.key]
  have hsame : a.decrypt (packet.drop cellHeaderSize) (cellHeaderDomain ++
      packet.take cellHeaderSize) (o.noncePrefix ++ writeUintBE 8 (readU64 (packet.drop 28))) o.key =
      a.opening ⟨o.key, o.noncePrefix ++ writeUintBE 8 (readU64 (packet.drop 28)),
        cellHeaderDomain ++ packet.take cellHeaderSize, packet.drop cellHeaderSize⟩ := rfl
  rw [hsame]
  cases hopen : a.opening ⟨o.key, o.noncePrefix ++ writeUintBE 8 (readU64 (packet.drop 28)),
      cellHeaderDomain ++ packet.take cellHeaderSize, packet.drop cellHeaderSize⟩ with
  | none => exact .inl ⟨rfl, rfl⟩
  | some body =>
    have hbody := length_of_decrypt ha hrest hopen
    have hbody' : body.length = 1148 := hbody
    rw [Option.bind_some, setBytes_all (by rw [h.body, hbody]), Option.bind_some,
      payloadLengthOf_eq (by omega)]
    dsimp only
    by_cases hbig : maxCellPayload < (body.take 2).foldl (fun n b => n * 256 + b.toNat) 0
    · rw [if_pos hbig, if_pos hbig]
      exact .inl ⟨rfl, rfl⟩
    rw [if_neg hbig, if_neg hbig, setBytes_all (by rw [hout, hbody]), Option.bind_some]
    have hmax : maxCellPayload = 1146 := rfl
    have hplen : ((body.drop 2).take ((body.take 2).foldl (fun n b => n * 256 + b.toNat) 0)).length =
        (body.take 2).foldl (fun n b => n * 256 + b.toNat) 0 := by
      rw [List.length_take, List.length_drop]
      omega
    refine .inr ⟨_, _, _, body, rfl, by rw [hplen], rfl, by rw [bodyPayload, hplen], ?_⟩
    refine ⟨h.valid, h.live, rfl, h.noncePrefix, h.header, ?_, ?_, hbody, hrest, h.padding⟩
    · show (o.noncePrefix ++ writeUintBE 8 _).length = 24
      rw [List.length_append, ho.noncePrefix, length_writeUintBE]
    · show (cellHeaderDomain ++ packet.take cellHeaderSize).length = _
      rw [List.length_append, length_cellHeaderDomain, List.length_take, hsize]
      rfl

/-- The contexts that calls lead to, as long as none fails. -/
inductive Reached (a : Aead) (o : SealOptions) (sealing : Bool) : CellContext → Prop
  | created {ctx : CellContext} (h : create o sealing = some ctx) : Reached a o sealing ctx
  | sealed {ctx ctx' : CellContext} {packetOutput payload fill out : Bytes}
      {packetOffset counter : Int} (h : Reached a o sealing ctx) (hsealing : sealing = true)
      (hfill : fill.length = maxCellPayload)
      (hs : ctx.sealInto a packetOutput payload packetOffset fill counter = (ctx', out, true)) :
      Reached a o sealing ctx'
  | opened {ctx ctx' : CellContext} {packet bodyOutput out : Bytes} {payloadLength : Nat}
      (h : Reached a o sealing ctx)
      (ho : ctx.openInto a packet bodyOutput = (ctx', out, some payloadLength)) :
      Reached a o sealing ctx'

theorem trySealInto_eq_none {ctx : CellContext} (h : ctx.Ready o true) {payload fill out : Bytes}
    {offset counter : Int} (hn : maxCellPayload < payload.length ∨ offset < 0 ∨
      out.length - offset < cellSize ∨ uint64 counter = false) :
    ctx.trySealInto a out payload offset fill counter = none := by
  unfold CellContext.trySealInto
  rw [if_neg (by simp [h.live])]
  by_cases hg : offset < 0 ∨ out.length - offset < cellSize ∨ maxCellPayload < payload.length
  · rw [if_pos hg]
  · have hc : uint64 counter = false := by tauto
    rw [if_neg hg]
    simp [hc]

theorem sealInto_ready {ctx ctx' : CellContext} (ha : a.Lawful) (h : ctx.Ready o true)
    {packetOutput payload fill out : Bytes} {packetOffset counter : Int}
    (hfill : fill.length = maxCellPayload)
    (hs : ctx.sealInto a packetOutput payload packetOffset fill counter = (ctx', out, true)) :
    ctx'.Ready o true := by
  unfold CellContext.sealInto at hs
  by_cases hn : maxCellPayload < payload.length ∨ packetOffset < 0 ∨
      packetOutput.length - packetOffset < cellSize ∨ uint64 counter = false
  · rw [trySealInto_eq_none h hn] at hs
    simp at hs
  · simp only [not_or, not_lt, Bool.not_eq_false] at hn
    obtain ⟨hp, h0, hfit, hc⟩ := hn
    obtain ⟨ctx₁, he, hr⟩ := h.trySealInto ha hp hfill hc h0 hfit
    rw [he] at hs
    simp only [Prod.mk.injEq, and_true] at hs
    rw [← hs.1]
    exact hr.clearTransient

theorem openInto_ready {ctx ctx' : CellContext} {sealing : Bool} (ha : a.Lawful)
    (h : ctx.Ready o sealing) {packet bodyOutput out : Bytes} {payloadLength : Nat}
    (ho : ctx.openInto a packet bodyOutput = (ctx', out, some payloadLength)) :
    ctx'.Ready o sealing := by
  unfold CellContext.openInto at ho
  by_cases hout : bodyOutput.length = cellBodySize
  · rcases h.tryOpenInto ha packet hout with ⟨-, he⟩ | ⟨_, _, ctx₁, body, -, he, -, -, hr⟩
    · rw [he] at ho
      simp at ho
    · rw [he] at ho
      simp only [Prod.mk.injEq] at ho
      rw [← ho.1]
      exact hr.clearTransient
  · have he : ctx.tryOpenInto a packet bodyOutput = none := by
      unfold CellContext.tryOpenInto
      rw [if_neg (by simp [h.live]), if_pos (.inl hout)]
    rw [he] at ho
    simp at ho

theorem Reached.ready {ctx : CellContext} {sealing : Bool} (ha : a.Lawful)
    (h : Reached a o sealing ctx) : ctx.Ready o sealing := by
  induction h with
  | created h =>
    cases hv : o.valid with
    | false =>
      rw [create_eq_none hv] at h
      cases h
    | true =>
      obtain ⟨ctx', he, hr⟩ := create_eq_some hv sealing
      rw [he] at h
      exact Option.some.inj h ▸ hr
  | sealed _ hsealing hfill hs ih =>
    subst hsealing
    exact sealInto_ready ha ih hfill hs
  | opened _ ho ih => exact openInto_ready ha ih ho

end CellContext

/-! ## Both codecs -/

/-- A packet opens under options with its own class, direction, epoch and
circuit id only. -/
theorem fixedHeader_inj {o' : SealOptions} (ho : o.Checked) (ho' : o'.Checked)
    (h : o.fixedHeader = o'.fixedHeader) : o.cellClass = o'.cellClass ∧
      o.direction = o'.direction ∧ o.epoch = o'.epoch ∧ o.circuitId = o'.circuitId := by
  unfold SealOptions.fixedHeader at h
  obtain ⟨h, hi⟩ := List.append_inj h (by simp)
  obtain ⟨hf, he⟩ := List.append_inj h (by simp)
  simp only [List.cons.injEq, true_and, and_true] at hf
  have hclass : ∀ x y : SealOptions, x.cellClass.isSome = true → y.cellClass.isSome = true →
      x.classByte = y.classByte → x.cellClass = y.cellClass := by
    intro x y hx hy hb
    obtain ⟨u, hu⟩ := Option.isSome_iff_exists.mp hx
    obtain ⟨v, hv⟩ := Option.isSome_iff_exists.mp hy
    unfold SealOptions.classByte at hb
    rw [hu, hv] at hb ⊢
    cases u <;> cases v <;> first | rfl | exact absurd hb (by decide)
  have hdirection : ∀ x y : SealOptions, x.direction.isSome = true → y.direction.isSome = true →
      x.directionByte = y.directionByte → x.direction = y.direction := by
    intro x y hx hy hb
    obtain ⟨u, hu⟩ := Option.isSome_iff_exists.mp hx
    obtain ⟨v, hv⟩ := Option.isSome_iff_exists.mp hy
    unfold SealOptions.directionByte at hb
    rw [hu, hv] at hb ⊢
    cases u <;> cases v <;> first | rfl | exact absurd hb (by decide)
  have hepoch : o.epoch.toNat = o'.epoch.toNat := by
    rw [← readU64_writeUintBE ho.epoch [], he, readU64_writeUintBE ho'.epoch]
  have h0 := ho.nonneg
  have h0' := ho'.nonneg
  exact ⟨hclass o o' ho.cellClass ho'.cellClass hf.1,
    hdirection o o' ho.direction ho'.direction hf.2, by omega, hi⟩

theorem openInto_cellPacket (ha : a.Lawful) (ho : o.Checked) {counter : Nat}
    (hc : counter < 2 ^ 64) {payload padding : Bytes}
    (h : payload.length + padding.length = maxCellPayload) :
    openInto a.opening o (cellPacket a o counter payload padding) = some (counter, payload) := by
  have hmax : maxCellPayload = 1146 := rfl
  have hsize := length_cellPacket ha ho h counter
  have hhead : (o.header counter).length = cellHeaderSize := ho.length_header counter
  have htake : (cellPacket a o counter payload padding).take 28 = o.fixedHeader := by
    rw [cellPacket, List.take_append_of_le_length (by rw [hhead]; decide), take_header ho]
  have hdrop : (cellPacket a o counter payload padding).drop 28 = writeUintBE 8 counter ++
      a.encrypt (writeUintBE 2 payload.length ++ payload ++ padding)
        (cellHeaderDomain ++ o.header counter) (o.noncePrefix ++ writeUintBE 8 counter) o.key := by
    rw [cellPacket, SealOptions.header_eq, List.append_assoc, ← ho.length_fixedHeader,
      List.drop_left]
  have hheader : (cellPacket a o counter payload padding).take cellHeaderSize =
      o.header counter := by
    rw [cellPacket, ← hhead, List.take_left]
  have hcipher : (cellPacket a o counter payload padding).drop cellHeaderSize =
      a.encrypt (writeUintBE 2 payload.length ++ payload ++ padding)
        (cellHeaderDomain ++ o.header counter) (o.noncePrefix ++ writeUintBE 8 counter) o.key := by
    rw [cellPacket, ← hhead, List.drop_left]
  have hcounter : readU64 ((cellPacket a o counter payload padding).drop 28) = counter := by
    rw [hdrop, readU64_writeUintBE hc]
  unfold openInto
  rw [if_neg (not_not.mpr hsize), if_neg (by rw [htake, take_header ho]; simp)]
  dsimp only
  rw [hcounter, hheader, hcipher]
  unfold Aead.opening
  rw [ha.opens]
  have hlength : ((writeUintBE 2 payload.length ++ payload ++ padding).take 2).foldl
      (fun n b => n * 256 + b.toNat) 0 = payload.length := by
    rw [← payloadLengthOf_eq (by simp), List.append_assoc,
      payloadLengthOf_append (by omega)]
  have hpayload : ((writeUintBE 2 payload.length ++ payload ++ padding).drop 2).take
      payload.length = payload := by
    rw [List.append_assoc, List.drop_left' (length_writeUintBE 2 _), List.take_left]
  dsimp only
  rw [hlength, if_neg (by omega), hpayload]

theorem openInto_of_other {o' : SealOptions} (ho' : o'.Checked) {packet : Bytes}
    (h : packet.take 28 ≠ o'.fixedHeader) : openInto a.opening o' packet = none := by
  unfold openInto
  split
  · rfl
  · rw [take_header ho', if_pos h]

theorem openPacket_of_invalid (hv : o.valid = false) (packet : Bytes) :
    openPacket a alloc o packet = none := by
  unfold openPacket
  split
  · rfl
  · dsimp only
    split
    · rfl
    · rw [if_pos (.inl hv)]

theorem sealPacket_eq_some (ha : a.Lawful) (hs : Sized alloc) {counter : Int} {payload : Bytes}
    {padding : Nat → Bytes} {packet : Bytes}
    (h : sealPacket a alloc o counter payload padding = some packet) :
    o.valid = true ∧ uint64 counter = true ∧ ∃ pad : Bytes,
      payload.length + pad.length = maxCellPayload ∧
        packet = cellPacket a o counter.toNat payload pad := by
  by_cases hbad : o.valid = false ∨ maxCellPayload < payload.length
  · unfold sealPacket at h
    rw [if_pos hbad] at h
    cases h
  have hv : o.valid = true := by simpa using fun hn => hbad (.inl hn)
  have hp : payload.length ≤ maxCellPayload := not_lt.mp fun hn => hbad (.inr hn)
  by_cases hpad : 0 < maxCellPayload - payload.length →
      (padding (maxCellPayload - payload.length)).length = maxCellPayload - payload.length
  · cases hc : uint64 counter with
    | false =>
      unfold sealPacket at h
      rw [if_neg hbad, sealBody_eq hs hp hpad] at h
      simp [hc] at h
    | true =>
      rw [sealPacket_eq ha hs hv hc hp hpad] at h
      refine ⟨hv, rfl, _, ?_, (Option.some.inj h).symm⟩
      rw [length_paddingOf hpad]
      omega
  · push Not at hpad
    have hbody : sealBody alloc payload padding = none := by
      unfold sealBody
      rw [allocateScratch_eq hs]
      simp only [Option.bind_eq_bind, Option.bind_some]
      rw [payload_written (hs _) hp, Option.bind_some, if_pos hpad.1, if_pos hpad.2]
    unfold sealPacket at h
    rw [if_neg hbad, hbody] at h
    cases h

theorem sealPacket_sealInto (ha : a.Lawful) (hs : Sized alloc) {ctx : CellContext}
    (h : CellContext.Reached a o true ctx) {payload fill out : Bytes} {offset counter : Int}
    (hfill : fill.length = maxCellPayload) (h0 : 0 ≤ offset)
    (hfit : cellSize ≤ out.length - offset) :
    match sealPacket a alloc o counter payload fun n => fill.take n with
    | some packet => ∃ ctx', ctx.sealInto a out payload offset fill counter = (ctx',
        out.take offset.toNat ++ packet ++ out.drop (offset.toNat + cellSize), true)
    | none => (ctx.sealInto a out payload offset fill counter).2.2 = false := by
  have hr := h.ready ha
  by_cases hn : maxCellPayload < payload.length ∨ uint64 counter = false
  · have hnone : sealPacket a alloc o counter payload (fun n => fill.take n) = none := by
      cases hp : sealPacket a alloc o counter payload (fun n => fill.take n) with
      | none => rfl
      | some packet =>
        obtain ⟨-, hc, pad, hlen, -⟩ := sealPacket_eq_some ha hs hp
        rcases hn with hn | hn
        · omega
        · simp [hc] at hn
    rw [hnone]
    dsimp only
    unfold CellContext.sealInto
    rw [CellContext.trySealInto_eq_none hr (by tauto)]
  · simp only [not_or, not_lt, Bool.not_eq_false] at hn
    have hpad : 0 < maxCellPayload - payload.length →
        (fill.take (maxCellPayload - payload.length)).length = maxCellPayload - payload.length := by
      intro _
      rw [List.length_take, hfill]
      omega
    have htake : paddingOf (fun n => fill.take n) (maxCellPayload - payload.length) =
        fill.take (maxCellPayload - payload.length) := by
      unfold paddingOf
      split
      · rfl
      · next hz => rw [Nat.eq_zero_of_not_pos hz, List.take_zero]
    rw [sealPacket_eq ha hs hr.valid hn.2 hn.1 hpad, htake]
    dsimp only
    obtain ⟨ctx', he, -⟩ := hr.trySealInto ha hn.1 hfill hn.2 h0 hfit
    unfold CellContext.sealInto
    rw [he]
    exact ⟨_, rfl⟩

theorem openPacket_openInto (ha : a.Lawful) (hs : Sized alloc) {ctx : CellContext}
    (h : CellContext.Reached a o false ctx) (packet : Bytes) {out : Bytes}
    (hout : out.length = cellBodySize) :
    match openPacket a alloc o packet with
    | some (counter, payload) => ∃ ctx' body,
        ctx.openInto a packet out = (ctx', body, some payload.length) ∧
          ctx'.authenticatedCounter = some counter ∧
          CellContext.bodyPayload body payload.length = payload
    | none => (ctx.openInto a packet out).2.2 = none := by
  have hr := h.ready ha
  rw [openPacket_eq ha hs hr.valid]
  unfold CellContext.openInto
  rcases hr.tryOpenInto ha packet hout with ⟨hn, he⟩ | ⟨counter, payload, ctx', body, hp, he, hc, hb, -⟩
  · rw [hn, he]
  · rw [hp, he]
    exact ⟨_, _, rfl, hc, hb⟩

end

/-- **The two codecs agree and invert each other.** A live sealer writes exactly
the packet `seal` returns with the same padding and fails where it fails, and
both take the same options; a live opener accepts exactly the packets `open`
hands to its receiver, with the same counter and payload. A sealed cell opens to
its counter and payload, and under another class, direction, epoch or circuit id
not at all. -/
theorem codecs_agree (a : Aead) (ha : a.Lawful) (alloc : Nat → Bytes) (hs : Sized alloc)
    (o : SealOptions) :
    (∀ sealing, (∃ ctx, CellContext.create o sealing = some ctx) ↔ o.valid = true) ∧
    (∀ (counter : Int) (payload fill : Bytes), fill.length = maxCellPayload →
      ((∃ packet, sealPacket a alloc o counter payload (fun n => fill.take n) = some packet) ↔
        o.valid = true ∧ uint64 counter = true ∧ payload.length ≤ maxCellPayload)) ∧
    (∀ (ctx : CellContext) (payload fill out : Bytes) (offset counter : Int),
      CellContext.Reached a o true ctx → fill.length = maxCellPayload → 0 ≤ offset →
      cellSize ≤ out.length - offset →
      match sealPacket a alloc o counter payload fun n => fill.take n with
      | some packet => ∃ ctx', ctx.sealInto a out payload offset fill counter = (ctx',
          out.take offset.toNat ++ packet ++ out.drop (offset.toNat + cellSize), true)
      | none => (ctx.sealInto a out payload offset fill counter).2.2 = false) ∧
    (∀ (ctx : CellContext) (packet out : Bytes), CellContext.Reached a o false ctx →
      out.length = cellBodySize →
      match openPacket a alloc o packet with
      | some (counter, payload) => ∃ ctx' body,
          ctx.openInto a packet out = (ctx', body, some payload.length) ∧
            ctx'.authenticatedCounter = some counter ∧
            CellContext.bodyPayload body payload.length = payload
      | none => (ctx.openInto a packet out).2.2 = none) ∧
    (∀ (counter : Int) (payload packet : Bytes) (padding : Nat → Bytes),
      sealPacket a alloc o counter payload padding = some packet →
      (∃ n : Nat, (n : Int) = counter ∧ openPacket a alloc o packet = some (n, payload)) ∧
      ∀ o' : SealOptions, o'.cellClass ≠ o.cellClass ∨ o'.direction ≠ o.direction ∨
        o'.epoch ≠ o.epoch ∨ o'.circuitId ≠ o.circuitId →
        openPacket a alloc o' packet = none) := by
  refine ⟨fun sealing => ?_, fun counter payload fill hfill => ?_,
    fun ctx payload fill out offset counter h hfill h0 hfit =>
      sealPacket_sealInto ha hs h hfill h0 hfit,
    fun ctx packet out h hout => openPacket_openInto ha hs h packet hout,
    fun counter payload packet padding h => ?_⟩
  · constructor
    · rintro ⟨ctx, hc⟩
      cases hv : o.valid with
      | true => rfl
      | false =>
        rw [CellContext.create_eq_none hv] at hc
        cases hc
    · intro hv
      obtain ⟨ctx, hc, -⟩ := CellContext.create_eq_some hv sealing
      exact ⟨ctx, hc⟩
  · constructor
    · rintro ⟨packet, h⟩
      obtain ⟨hv, hc, pad, hlen, -⟩ := sealPacket_eq_some ha hs h
      exact ⟨hv, hc, by omega⟩
    · rintro ⟨hv, hc, hp⟩
      refine ⟨_, sealPacket_eq ha hs hv hc hp fun _ => ?_⟩
      rw [List.length_take, hfill]
      omega
  · obtain ⟨hv, hc, pad, hlen, rfl⟩ := sealPacket_eq_some ha hs h
    have ho := SealOptions.checked hv
    simp only [uint64, Bool.and_eq_true, decide_eq_true_eq] at hc
    refine ⟨⟨counter.toNat, by omega, ?_⟩, fun o' hne => ?_⟩
    · rw [openPacket_eq ha hs hv, openInto_cellPacket ha ho (by omega) hlen]
    · cases hv' : o'.valid with
      | false => exact openPacket_of_invalid hv' _
      | true =>
        have ho' := SealOptions.checked hv'
        rw [openPacket_eq ha hs hv']
        refine openInto_of_other ho' fun he => ?_
        rw [cellPacket, List.take_append_of_le_length
          (by rw [ho.length_header]; decide), take_header ho] at he
        obtain ⟨h1, h2, h3, h4⟩ := fixedHeader_inj ho ho' he
        rcases hne with hne | hne | hne | hne
        · exact hne h1.symm
        · exact hne h2.symm
        · exact hne h3.symm
        · exact hne h4.symm

/-- A stand-in for the AEAD: a tag of zeros. -/
def plainAead : Aead where
  encrypt m _ _ _ := m ++ zeros aeadTagBytes
  decrypt c _ _ _ :=
    if aeadTagBytes ≤ c.length ∧ c.drop (c.length - aeadTagBytes) = zeros aeadTagBytes then
      some (c.take (c.length - aeadTagBytes))
    else none

theorem plainAead_lawful : plainAead.Lawful := by
  have htag : (zeros aeadTagBytes).length = aeadTagBytes := List.length_replicate
  refine ⟨fun m _ _ _ => ?_, fun m _ _ _ => ?_, fun c _ _ _ m h => ?_⟩
  · show (m ++ zeros aeadTagBytes).length = _
    rw [List.length_append, htag]
  · have hlen : (m ++ zeros aeadTagBytes).length - aeadTagBytes = m.length := by
      rw [List.length_append, htag, Nat.add_sub_cancel]
    unfold plainAead
    dsimp only
    rw [hlen, List.drop_left, List.take_left, if_pos]
    exact ⟨by rw [List.length_append, htag]; omega, rfl⟩
  · unfold plainAead at h ⊢
    dsimp only at h ⊢
    split at h
    · next hc =>
      rw [← Option.some.inj h, ← hc.2, List.take_append_drop]
    · cases h

/-- A cell of three bytes with the counter 7. -/
theorem codecs_agree_sample : plainAead.Lawful ∧ Sized zeros ∧ ∃ packet,
    sealPacket plainAead zeros CircuitLink.plainOptions 7 [1, 2, 3]
      (fun n => (zeros maxCellPayload).take n) = some packet ∧
    openPacket plainAead zeros CircuitLink.plainOptions packet = some (7, [1, 2, 3]) := by
  have hs : Sized zeros := fun size => List.length_replicate
  have h := codecs_agree plainAead plainAead_lawful zeros hs CircuitLink.plainOptions
  obtain ⟨packet, hp⟩ := (h.2.1 7 [1, 2, 3] (zeros maxCellPayload) List.length_replicate).mpr
    ⟨by decide +kernel, by decide, by decide⟩
  obtain ⟨⟨n, hn, ho⟩, -⟩ := h.2.2.2.2 7 [1, 2, 3] packet _ hp
  obtain rfl : n = 7 := by omega
  exact ⟨plainAead_lawful, hs, packet, hp, ho⟩

end HyperDht.Private
