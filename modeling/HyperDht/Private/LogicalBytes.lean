import HyperDht.Private.CellAgreement

/-!
# Logical frames as bytes

`encodeLogical` and `decodeLogical` on the bytes of a route cell: four bytes of stream id,
one of flags, and the data that `validLogicalPayload` allows for the two. A frame is
accepted exactly if it is the encoding of what it is decoded to (`logical_canonical`), and
the frames of `Logical` are what the accepted bytes mean (`decodeLogical_payloadOf`).
-/

namespace HyperDht.Private.LogicalBytes

def logicalData : Nat := 0
def logicalOpen : Nat := 1
def logicalFin : Nat := 2
def logicalReset : Nat := 3
def logicalCredit : Nat := 4
def logicalDemand : Nat := 5
def logicalRelease : Nat := 6
def logicalSpliceOpen : Nat := 7
def logicalSpliceReady : Nat := 8

/-- `buffer.readUInt32BE(offset)`. -/
def readU32 (buffer : Bytes) (offset : Nat) : Nat :=
  ((buffer.drop offset).take 4).foldl (fun value b => value * 256 + b.toNat) 0

def writeU32 (buffer : Bytes) (value offset : Nat) : Option Bytes :=
  if 0xffffffff < value then none else setBytes buffer (writeUintBE 4 value) offset

def validLogicalPayload (streamId flags : Nat) (data : Bytes) : Bool :=
  if maxLogicalPayload < data.length then false
  else if flags = logicalSpliceOpen ∨ flags = logicalSpliceReady then
    streamId != circuitStreamId && data.length == 4 && readU32 data 0 != 0
  else if flags < logicalCredit then
    streamId != circuitStreamId && (flags == logicalData || data.length == 0)
  else if logicalRelease < flags ∨ data.length ≠ 2 then false
  else if flags ≠ logicalCredit ∧ streamId ≠ circuitStreamId then false
  else
    let amount := payloadLengthOf data
    let maximum := if streamId = circuitStreamId then circuitWindow else streamWindow
    amount ≤ maximum && (amount != 0 || flags == logicalDemand)

/-- `none` where the source throws. -/
def encodeLogical (alloc : Nat → Bytes) (streamId flags : Int) (data : Bytes) : Option Bytes :=
  if streamId < 0 ∨ 0xffffffff < streamId ∨ flags < logicalData ∨ (logicalSpliceReady : Int) < flags ∨
      validLogicalPayload streamId.toNat flags.toNat data = false then none
  else do
    let frame := alloc (logicalHeaderBytes + data.length)
    let frame ← writeU32 frame streamId.toNat 0
    let frame := frame.set 4 (UInt8.ofNat flags.toNat)
    setBytes frame data logicalHeaderBytes

structure Decoded where
  streamId : Nat
  flags : Nat
  data : Bytes
deriving DecidableEq, Repr

def decodeLogical (frame : Bytes) : Option Decoded :=
  if frame.length < logicalHeaderBytes then none
  else
    let streamId := readU32 frame 0
    let flags := (frame.getD 4 0).toNat
    let data := frame.drop logicalHeaderBytes
    if validLogicalPayload streamId flags data = false then none else some ⟨streamId, flags, data⟩

/-- `valid` in `CircuitLink.send`. -/
def sendable (payload : Bytes) : Bool := payload.length ≤ maxCellPayload

def creditData (amount : Nat) : Bytes := [UInt8.ofNat (amount >>> 8), UInt8.ofNat (amount &&& 0xff)]

/-! ## Layout -/

theorem readU32_writeUintBE {value : Nat} (h : value ≤ 0xffffffff) (rest : Bytes) :
    readU32 (writeUintBE 4 value ++ rest) 0 = value := by
  have htake : (writeUintBE 4 value ++ rest).take 4 = writeUintBE 4 value := by
    rw [List.take_append_of_le_length (by simp), List.take_of_length_le (by simp)]
  unfold readU32
  rw [List.drop_zero, htake, foldl_writeUintBE, Nat.zero_mul, Nat.zero_add,
    Nat.mod_eq_of_lt (by omega)]

theorem writeUintBE_readU32 {bytes : Bytes} (h : 4 ≤ bytes.length) :
    writeUintBE 4 (readU32 bytes 0) = bytes.take 4 := by
  have hlen : (bytes.take 4).length = 4 := by simp [h]
  have := writeUintBE_foldl (bytes.take 4)
  rw [hlen] at this
  exact this

theorem readU32_le (bytes : Bytes) : readU32 bytes 0 ≤ 0xffffffff := by
  have := foldl_take_lt (bytes.drop 0) 4
  unfold readU32
  omega

structure Encodable (streamId flags : Int) (data : Bytes) : Prop where
  address : 0 ≤ streamId ∧ streamId ≤ 0xffffffff
  known : 0 ≤ flags ∧ flags ≤ 8
  payload : validLogicalPayload streamId.toNat flags.toNat data = true

/-- The frame of a stream id, flags and data. -/
def layout (streamId flags : Nat) (data : Bytes) : Bytes :=
  writeUintBE 4 streamId ++ UInt8.ofNat flags :: data

variable {alloc : Nat → Bytes}

theorem encodeLogical_eq (hs : Sized alloc) {streamId flags : Int} {data : Bytes}
    (h : Encodable streamId flags data) : encodeLogical alloc streamId flags data =
      some (layout streamId.toNat flags.toNat data) := by
  obtain ⟨⟨hid, hid'⟩, ⟨hf, hf'⟩, hp⟩ := h
  have hcheck : ¬ (streamId < 0 ∨ 0xffffffff < streamId ∨ flags < logicalData ∨
      (logicalSpliceReady : Int) < flags ∨
      validLogicalPayload streamId.toNat flags.toNat data = false) := by
    rw [hp]
    have h0 : (logicalData : Int) = 0 := rfl
    have h8 : (logicalSpliceReady : Int) = 8 := rfl
    simp
    omega
  have hlen := hs (logicalHeaderBytes + data.length)
  rw [show logicalHeaderBytes = 5 from rfl] at hlen
  obtain ⟨x, rest, hx⟩ : ∃ x rest, (alloc (5 + data.length)).drop 4 = x :: rest :=
    List.exists_cons_of_length_pos (by rw [List.length_drop]; omega)
  have hrest : rest.length = data.length := by
    have := congrArg List.length hx
    rw [List.length_drop, List.length_cons] at this
    omega
  have hid4 : (writeUintBE 4 streamId.toNat).length = 4 := length_writeUintBE 4 _
  have hwrite : writeU32 (alloc (5 + data.length)) streamId.toNat 0 =
      some (writeUintBE 4 streamId.toNat ++ x :: rest) := by
    unfold writeU32
    rw [if_neg (by omega), setBytes_start (by rw [hid4, hlen]; omega), hid4, hx]
  have hset : (writeUintBE 4 streamId.toNat ++ x :: rest).set 4 (UInt8.ofNat flags.toNat) =
      (writeUintBE 4 streamId.toNat ++ [UInt8.ofNat flags.toNat]) ++ rest := by
    have := set_next (writeUintBE 4 streamId.toNat) x (UInt8.ofNat flags.toNat) rest
    rwa [hid4] at this
  unfold encodeLogical
  rw [if_neg hcheck, show logicalHeaderBytes = 5 from rfl]
  dsimp only
  rw [hwrite]
  show setBytes _ data 5 = _
  rw [hset, setBytes_next (by simp) (Nat.le_of_eq hrest.symm), ← hrest, List.drop_length, layout]
  simp

/-- What is encoded has at most the largest flag. -/
theorem le_of_valid {streamId flags : Nat} {data : Bytes}
    (h : validLogicalPayload streamId flags data = true) : flags ≤ 8 := by
  by_contra hlt
  have h7 : ¬ (flags = logicalSpliceOpen ∨ flags = logicalSpliceReady) := by
    rw [logicalSpliceOpen, logicalSpliceReady]
    omega
  have h4 : ¬ flags < logicalCredit := by
    rw [logicalCredit]
    omega
  have h6 : logicalRelease < flags := by
    rw [logicalRelease]
    omega
  unfold validLogicalPayload at h
  simp [h7, h4, h6] at h

theorem length_le_of_valid {streamId flags : Nat} {data : Bytes}
    (h : validLogicalPayload streamId flags data = true) : data.length ≤ maxLogicalPayload := by
  by_contra hlt
  unfold validLogicalPayload at h
  rw [if_pos (Nat.lt_of_not_le hlt)] at h
  cases h

theorem encodeLogical_eq_some (hs : Sized alloc) {streamId flags : Int} {data w : Bytes} :
    encodeLogical alloc streamId flags data = some w ↔
      Encodable streamId flags data ∧ w = layout streamId.toNat flags.toNat data := by
  constructor
  · intro h
    have hok : Encodable streamId flags data := by
      unfold encodeLogical at h
      split at h
      · cases h
      · next hno =>
        simp only [not_or, Int.not_lt, Bool.not_eq_false] at hno
        obtain ⟨h₁, h₂, h₃, h₄, h₅⟩ := hno
        exact ⟨⟨h₁, h₂⟩, ⟨h₃, h₄⟩, h₅⟩
    rw [encodeLogical_eq hs hok] at h
    exact ⟨hok, (Option.some.inj h).symm⟩
  · rintro ⟨hok, rfl⟩
    exact encodeLogical_eq hs hok

theorem decodeLogical_eq_some {w : Bytes} {d : Decoded} :
    decodeLogical w = some d ↔ validLogicalPayload d.streamId d.flags d.data = true ∧
      d.streamId ≤ 0xffffffff ∧ w = layout d.streamId d.flags d.data := by
  constructor
  · intro h
    unfold decodeLogical at h
    split at h
    · cases h
    · next hlen =>
      have hlen : 5 ≤ w.length := Nat.le_of_not_lt hlen
      dsimp only at h
      split at h
      · cases h
      · next hv =>
        obtain rfl := Option.some.inj h
        refine ⟨by simpa using hv, readU32_le w, ?_⟩
        have hdrop : w.drop 4 = w.getD 4 0 :: w.drop 5 := by
          rw [List.drop_eq_getElem_cons (show 4 < w.length by omega),
            List.getD_eq_getElem?_getD, List.getElem?_eq_getElem (by omega)]
          rfl
        dsimp only [layout]
        rw [writeUintBE_readU32 (by omega), UInt8.ofNat_toNat]
        conv_lhs => rw [← List.take_append_drop 4 w, hdrop]
        rfl
  · rintro ⟨hv, hid, rfl⟩
    have hf := le_of_valid hv
    have hlen : (layout d.streamId d.flags d.data).length = 5 + d.data.length := by
      rw [layout, List.length_append, length_writeUintBE, List.length_cons]
      omega
    have hid4 : (writeUintBE 4 d.streamId).length = 4 := length_writeUintBE 4 _
    have hflag : (layout d.streamId d.flags d.data).getD 4 0 = UInt8.ofNat d.flags := by
      rw [layout, List.getD_eq_getElem?_getD, List.getElem?_append_right (by omega), hid4]
      rfl
    have hdata : (layout d.streamId d.flags d.data).drop 5 = d.data := by
      rw [layout, List.drop_append, hid4, List.drop_eq_nil_of_le (by omega)]
      rfl
    unfold decodeLogical
    rw [if_neg (by rw [hlen, logicalHeaderBytes]; omega)]
    dsimp only
    rw [show logicalHeaderBytes = 5 from rfl, hflag, hdata, UInt8.toNat_ofNat', layout,
      readU32_writeUintBE hid, Nat.mod_eq_of_lt (by omega), hv]
    rfl

/-! ## Canonical frames -/

theorem decodeLogical_encodeLogical (hs : Sized alloc) {streamId flags : Int} {data w : Bytes}
    (h : encodeLogical alloc streamId flags data = some w) :
    decodeLogical w = some ⟨streamId.toNat, flags.toNat, data⟩ := by
  obtain ⟨hok, rfl⟩ := (encodeLogical_eq_some hs).mp h
  have := hok.address
  exact decodeLogical_eq_some.mpr ⟨hok.payload, by dsimp only; omega, rfl⟩

theorem encodeLogical_decodeLogical (hs : Sized alloc) {w : Bytes} {d : Decoded}
    (h : decodeLogical w = some d) : encodeLogical alloc d.streamId d.flags d.data = some w := by
  obtain ⟨hv, hid, rfl⟩ := decodeLogical_eq_some.mp h
  have hf := le_of_valid hv
  exact (encodeLogical_eq_some hs).mpr ⟨⟨by omega, by omega, hv⟩, rfl⟩

theorem length_encodeLogical (hs : Sized alloc) {streamId flags : Int} {data w : Bytes}
    (h : encodeLogical alloc streamId flags data = some w) : w.length ≤ maxCellPayload := by
  obtain ⟨hok, rfl⟩ := (encodeLogical_eq_some hs).mp h
  have hle := length_le_of_valid hok.payload
  have hmax : maxLogicalPayload = 1141 := rfl
  have hcell : maxCellPayload = 1146 := rfl
  rw [layout, List.length_append, length_writeUintBE, List.length_cons]
  omega

/-- The encoder accepts what some frame decodes to, and the two are inverse to each other; a
frame that is encoded passes the size check of a link and fills a cell's body. -/
theorem logical_canonical (alloc : Nat → Bytes) (hs : Sized alloc) :
    (∀ (streamId flags : Int) (data : Bytes), (encodeLogical alloc streamId flags data).isSome ↔
      ∃ w d, decodeLogical w = some d ∧ (d.streamId : Int) = streamId ∧ (d.flags : Int) = flags ∧
        d.data = data) ∧
    (∀ (streamId flags : Int) (data w : Bytes), encodeLogical alloc streamId flags data = some w →
      ∃ d, decodeLogical w = some d ∧ (d.streamId : Int) = streamId ∧ (d.flags : Int) = flags ∧
        d.data = data) ∧
    (∀ (w : Bytes) (d : Decoded), decodeLogical w = some d →
      encodeLogical alloc d.streamId d.flags d.data = some w) ∧
    (∀ (streamId flags : Int) (data w : Bytes), encodeLogical alloc streamId flags data = some w →
      w.length ≤ maxCellPayload ∧ sendable w = true) := by
  have hdecode : ∀ (streamId flags : Int) (data w : Bytes),
      encodeLogical alloc streamId flags data = some w →
      ∃ d, decodeLogical w = some d ∧ (d.streamId : Int) = streamId ∧ (d.flags : Int) = flags ∧
        d.data = data := by
    intro streamId flags data w h
    have hok := ((encodeLogical_eq_some hs).mp h).1
    have hid := hok.address
    have hf := hok.known
    exact ⟨_, decodeLogical_encodeLogical hs h, by dsimp only; omega, by dsimp only; omega, rfl⟩
  refine ⟨fun streamId flags data => ⟨fun h => ?_, ?_⟩, hdecode,
    fun w d h => encodeLogical_decodeLogical hs h, fun streamId flags data w h => ?_⟩
  · obtain ⟨w, hw⟩ := Option.isSome_iff_exists.mp h
    obtain ⟨d, hd⟩ := hdecode streamId flags data w hw
    exact ⟨w, d, hd⟩
  · rintro ⟨w, d, hd, rfl, rfl, rfl⟩
    rw [encodeLogical_decodeLogical hs hd]
    rfl
  · have hle := length_encodeLogical hs h
    exact ⟨hle, by unfold sendable; simpa using hle⟩

theorem logical_canonical_zeros :
    encodeLogical zeros 3 4 (creditData 300) = some [0, 0, 0, 3, 4, 1, 44] ∧
      ∃ d, decodeLogical [0, 0, 0, 3, 4, 1, 44] = some d ∧ (d.streamId : Int) = 3 ∧
        (d.flags : Int) = 4 ∧ d.data = creditData 300 :=
  ⟨by decide, (logical_canonical zeros (fun _ => List.length_replicate)).2.1 3 4 _ _ (by decide)⟩

/-! ## The meaning of a frame -/

/-- The body of a frame, where the data has the length of its flag. -/
def bodyOf (flags : Nat) (data : Bytes) : Option Body :=
  if flags = logicalData then some (.data data)
  else if flags = logicalOpen ∧ data.length = 0 then some .openStream
  else if flags = logicalFin ∧ data.length = 0 then some .fin
  else if flags = logicalReset ∧ data.length = 0 then some .reset
  else if flags = logicalCredit ∧ data.length = 2 then some (.credit (payloadLengthOf data))
  else if flags = logicalDemand ∧ data.length = 2 then some (.demand (payloadLengthOf data))
  else if flags = logicalRelease ∧ data.length = 2 then some (.release (payloadLengthOf data))
  else if flags = logicalSpliceOpen ∧ data.length = 4 then some (.spliceOpen (readU32 data 0))
  else if flags = logicalSpliceReady ∧ data.length = 4 then some (.spliceReady (readU32 data 0))
  else none

def payloadOf (w : Bytes) : Payload :=
  if w.length < logicalHeaderBytes then .garbage
  else
    match bodyOf (w.getD 4 0).toNat (w.drop logicalHeaderBytes) with
    | none => .garbage
    | some body => .frame ⟨readU32 w 0, body⟩

theorem validLogicalPayload_eq (streamId flags : Nat) (data : Bytes) :
    validLogicalPayload streamId flags data =
      match bodyOf flags data with
      | none => false
      | some body => Private.validLogicalPayload streamId body := by
  have hmax : maxLogicalPayload = 1141 := rfl
  have hword := readU32_le data
  rcases Nat.lt_or_ge 8 flags with hlt | hle
  · have hnone : bodyOf flags data = none := by
      unfold bodyOf logicalData logicalOpen logicalFin logicalReset logicalCredit logicalDemand
        logicalRelease logicalSpliceOpen logicalSpliceReady
      repeat rw [if_neg (by omega)]
    rw [hnone]
    cases hv : validLogicalPayload streamId flags data with
    | false => rfl
    | true =>
      have := le_of_valid hv
      omega
  · unfold validLogicalPayload bodyOf logicalData logicalOpen logicalFin logicalReset logicalCredit
      logicalDemand logicalRelease logicalSpliceOpen logicalSpliceReady
    match flags, hle with
    | 0, _ =>
      by_cases hlen : maxLogicalPayload < data.length
      · simp [Private.validLogicalPayload, hlen]
      · simp [Private.validLogicalPayload, hlen, Nat.le_of_not_lt hlen]
    | 1, _ | 2, _ | 3, _ =>
      by_cases hlen : data.length = 0 <;> simp [Private.validLogicalPayload, hlen, hmax]
    | 4, _ | 5, _ | 6, _ =>
      by_cases hlen : data.length = 2
      · by_cases hid : streamId = circuitStreamId <;>
          simp [Private.validLogicalPayload, creditMaximum, hlen, hmax, hid]
      · simp [hlen]
    | 7, _ | 8, _ =>
      by_cases hlen : data.length = 4 <;> simp [Private.validLogicalPayload, hlen, hmax, hword]

theorem decodeLogical_payloadOf (w : Bytes) : Private.decodeLogical (payloadOf w) =
    (decodeLogical w).bind fun d => (bodyOf d.flags d.data).map fun body => ⟨d.streamId, body⟩ := by
  have hword := readU32_le w
  unfold payloadOf decodeLogical
  split
  · rfl
  · dsimp only
    rw [validLogicalPayload_eq]
    cases hb : bodyOf (w.getD 4 0).toNat (w.drop logicalHeaderBytes) with
    | none => rfl
    | some body =>
      cases hv : Private.validLogicalPayload (readU32 w 0) body with
      | false => simp [Private.decodeLogical, hv]
      | true =>
        simp only [Private.decodeLogical, hv]
        rw [if_pos ⟨hword, trivial⟩]
        show _ = (bodyOf (w.getD 4 0).toNat (w.drop logicalHeaderBytes)).map _
        rw [hb]
        rfl

end HyperDht.Private.LogicalBytes
