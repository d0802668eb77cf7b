import HyperDht.Private.CellBuffers

/-!
# Object envelopes

`encodeM3Object` and `decodeM3Object` of `lib/private/protocol.js`, and the pair of
`lib/private/peer-protocol.js` for native peer objects. An object is its version, message id
and body length, the body, and a suffix whose length goes by the message id. The body's length
is checked against the row of the message id. `envelopes_exact` is that both pairs are
bijections onto what they accept.
-/

namespace HyperDht.Private.ObjectEnvelopes

/-- A JavaScript value, as far as it is looked at. A number here is an integer. -/
inductive Value where
  | undefined
  | number (n : Int)
  | buffer (b : Bytes)
  | other
deriving DecidableEq

/-- An own property of an object: there is none, it has a getter, or a value. -/
inductive Property where
  | absent
  | accessor
  | data (v : Value)
deriving DecidableEq

structure Properties where
  messageId : Property
  body : Property
  authSuffix : Property
deriving DecidableEq

/-- A row of a layout table; `allowed` is its optional fourth entry. -/
structure Layout where
  minimum : Nat
  maximum : Nat
  auth : Nat
  allowed : Option (List Nat)
deriving DecidableEq

/-- `m3BufferLength`, and `peerBufferLength`. -/
def bufferLength : Value → Int
  | .buffer b => b.length
  | _ => -1

def objectDataProperty (p : Property) (required : Bool) : Option Value :=
  match p with
  | .absent => if required then none else some .undefined
  | .accessor => none
  | .data v => some v

/-- The message id, body and suffix; `none` where the source throws. The argument is `none`
where it is no object or an array. -/
def objectOptions (value : Option Properties) : Option (Value × Value × Value) := do
  let value ← value
  let messageId ← objectDataProperty value.messageId true
  let body ← objectDataProperty value.body true
  let authSuffix ← objectDataProperty value.authSuffix false
  some (messageId, body, if authSuffix = .undefined then .buffer [] else authSuffix)

def maxSafeInteger : Int := 2 ^ 53 - 1

def writeUint32 (buffer : Bytes) (value offset : Nat) : Bytes :=
  (((buffer.set offset (UInt8.ofNat (value >>> 24))).set (offset + 1)
    (UInt8.ofNat (value >>> 16))).set (offset + 2) (UInt8.ofNat (value >>> 8))).set (offset + 3)
    (UInt8.ofNat value)

def readUint16 (buffer : Bytes) (offset : Nat) : Nat :=
  ((buffer.getD offset 0).toNat <<< 8) ||| (buffer.getD (offset + 1) 0).toNat

def readUint32 (buffer : Bytes) (offset : Nat) : Nat :=
  (buffer.getD offset 0).toNat * 0x1000000 + ((buffer.getD (offset + 1) 0).toNat <<< 16) +
    ((buffer.getD (offset + 2) 0).toNat <<< 8) + (buffer.getD (offset + 3) 0).toNat

/-- `m3Set`, and `peerSet`. -/
def setValue (target : Bytes) (source : Value) (offset : Nat) : Option Bytes :=
  match source with
  | .buffer b => setBytes target b offset
  | _ => none

/-- What the two pairs differ in: the version, the layout table, and how the length of a body is
checked. -/
structure Envelope where
  version : Nat
  table : List (Int × Layout)
  validBodyLength : Int → Layout → Bool

def Envelope.objectLayout (e : Envelope) : Value → Option Layout
  | .number n => if -maxSafeInteger ≤ n ∧ n ≤ maxSafeInteger then e.table.lookup n else none
  | _ => none

structure Decoded where
  protocolVersion : Nat
  messageId : Nat
  body : Bytes
  authSuffix : Bytes
deriving DecidableEq

/-- New memory has arbitrary contents. -/
abbrev Alloc : Type := (n : Nat) → { b : Bytes // b.length = n }

/-- `none` where the source throws `INVALID_ROUTE`. -/
def Envelope.encodeObject (e : Envelope) (alloc : Alloc) (value : Option Properties) :
    Option Bytes := do
  let (messageId, body, authSuffix) ← objectOptions value
  let layout ← e.objectLayout messageId
  let bodyBytes := bufferLength body
  if !e.validBodyLength bodyBytes layout || bodyBytes > 0xffff ||
      bufferLength authSuffix ≠ layout.auth then none
  else
    let id := match messageId with
      | .number n => n.toNat
      | _ => 0
    let output := (alloc (8 + bodyBytes.toNat + layout.auth)).val
    let output := writeUint32 output e.version 0
    let output := writeUint16BE output id 4
    let output := writeUint16BE output bodyBytes.toNat 6
    let output ← setValue output body 8
    setValue output authSuffix (8 + bodyBytes.toNat)

def Envelope.decodeObject (e : Envelope) : Value → Option Decoded
  | .buffer encoded =>
    if encoded.length < 8 ∨ readUint32 encoded 0 ≠ e.version then none
    else do
      let messageId := readUint16 encoded 4
      let bodyBytes := readUint16 encoded 6
      let layout ← e.objectLayout (.number messageId)
      if !e.validBodyLength bodyBytes layout || encoded.length ≠ 8 + bodyBytes + layout.auth then
        none
      else
        some ⟨e.version, messageId, (encoded.drop 8).take bodyBytes,
          (encoded.drop (8 + bodyBytes)).take (encoded.length - (8 + bodyBytes))⟩
  | _ => none

/-! ## The two pairs -/

def m3ObjectLayout : List (Int × Layout) :=
  [(0x0001, ⟨188, 476, 64, none⟩), (0x0002, ⟨110, 110, 0, none⟩), (0x0003, ⟨335, 4473, 64, none⟩),
    (0x0004, ⟨176, 176, 0, none⟩), (0x0005, ⟨272, 272, 64, none⟩), (0x0006, ⟨69, 69, 0, none⟩),
    (0x0007, ⟨41, 4441, 0, none⟩), (0x0008, ⟨48, 1192, 0, none⟩), (0x0009, ⟨72, 72, 0, none⟩),
    (0x0020, ⟨302, 302, 64, none⟩), (0x0021, ⟨213, 213, 64, none⟩), (0x0022, ⟨306, 306, 64, none⟩),
    (0x0023, ⟨486, 486, 0, none⟩), (0x0024, ⟨210, 210, 64, none⟩), (0x0025, ⟨458, 746, 0, none⟩),
    (0x0026, ⟨42, 42, 0, none⟩), (0x0027, ⟨58, 58, 0, none⟩), (0x0028, ⟨58, 58, 0, none⟩),
    (0x0040, ⟨96, 96, 0, none⟩), (0x0041, ⟨233, 233, 64, none⟩), (0x0042, ⟨105, 105, 0, none⟩),
    (0x0043, ⟨169, 169, 0, none⟩), (0x0044, ⟨905, 4265, 64, none⟩), (0x0045, ⟨310, 654, 64, none⟩),
    (0x0050, ⟨578, 738, 64, none⟩), (0x0051, ⟨124, 124, 16, none⟩), (0x0052, ⟨27, 1176, 16, none⟩),
    (0x0053, ⟨30, 1191, 0, none⟩), (0x0054, ⟨20, 8082, 0, none⟩), (0x0100, ⟨164, 164, 0, none⟩),
    (0x0101, ⟨221, 1382, 0, none⟩), (0x0102, ⟨200, 8262, 0, none⟩),
    (0x0201, ⟨141, 2891, 64, none⟩), (0x0280, ⟨132, 899, 64, none⟩),
    (0x0281, ⟨131, 131, 64, none⟩), (0x0282, ⟨206, 7990, 64, none⟩), (0x0283, ⟨72, 72, 0, none⟩),
    (0x0284, ⟨301, 301, 64, none⟩)]

/-- `PEER_OBJECT_LAYOUT`, with the values of `PEER_MESSAGE_ID`. -/
def peerObjectLayout : List (Int × Layout) :=
  [(0x0300, ⟨188, 188, 64, none⟩), (0x0301, ⟨110, 110, 0, none⟩), (0x0302, ⟨72, 72, 0, none⟩),
    (0x0303, ⟨335, 335, 64, none⟩), (0x0304, ⟨176, 176, 0, none⟩), (0x0305, ⟨240, 240, 64, none⟩),
    (0x0306, ⟨79, 339, 0, some [79, 339]⟩), (0x0307, ⟨436, 436, 0, none⟩),
    (0x0308, ⟨360, 360, 64, none⟩), (0x0309, ⟨213, 213, 64, none⟩), (0x030a, ⟨338, 338, 64, none⟩),
    (0x030b, ⟨518, 518, 0, none⟩), (0x030c, ⟨210, 210, 64, none⟩), (0x030d, ⟨516, 516, 0, none⟩),
    (0x030e, ⟨42, 42, 0, none⟩), (0x030f, ⟨58, 58, 0, none⟩), (0x0310, ⟨58, 58, 0, none⟩),
    (0x0311, ⟨212, 212, 16, none⟩), (0x0312, ⟨260, 260, 16, none⟩), (0x0313, ⟨64, 64, 16, none⟩),
    (0x0314, ⟨29, 1065, 0, none⟩), (0x0315, ⟨64, 64, 0, none⟩), (0x0316, ⟨88, 88, 0, none⟩),
    (0x0317, ⟨64, 64, 0, none⟩), (0x0318, ⟨49, 1029, 0, none⟩), (0x0319, ⟨45, 1021, 0, none⟩),
    (0x031a, ⟨60, 60, 0, none⟩), (0x031b, ⟨56, 56, 0, none⟩), (0x031c, ⟨56, 56, 0, none⟩),
    (0x031d, ⟨60, 60, 0, none⟩), (0x031e, ⟨40, 40, 0, none⟩), (0x031f, ⟨40, 40, 0, none⟩),
    (0x0340, ⟨511, 511, 0, none⟩), (0x0341, ⟨104, 104, 0, none⟩), (0x0342, ⟨106, 106, 0, none⟩),
    (0x0343, ⟨96, 96, 0, none⟩), (0x0344, ⟨132, 132, 0, none⟩), (0x0345, ⟨64, 1065, 0, none⟩),
    (0x0346, ⟨132, 132, 0, none⟩), (0x0347, ⟨100, 100, 0, none⟩), (0x0349, ⟨478, 478, 0, none⟩),
    (0x034a, ⟨136, 136, 0, none⟩), (0x034b, ⟨88, 88, 0, none⟩), (0x0360, ⟨749, 749, 0, none⟩),
    (0x0361, ⟨220, 220, 0, none⟩), (0x0362, ⟨232, 232, 0, none⟩), (0x0363, ⟨168, 168, 0, none⟩),
    (0x0364, ⟨120, 120, 0, none⟩), (0x0365, ⟨216, 216, 0, none⟩), (0x0370, ⟨48, 48, 0, none⟩),
    (0x0371, ⟨1011, 1011, 0, none⟩), (0x0372, ⟨979, 979, 0, none⟩), (0x0373, ⟨16, 16, 0, none⟩),
    (0x0374, ⟨22, 22, 0, none⟩), (0x0375, ⟨16, 16, 0, none⟩)]

/-- The lengths that `encodeM3Object` and `decodeM3Object` let through. -/
def validM3BodyLength (bodyBytes : Int) (layout : Layout) : Bool :=
  !(bodyBytes < layout.minimum || bodyBytes > layout.maximum)

def validPeerBodyLength (bodyBytes : Int) (layout : Layout) : Bool :=
  match layout.allowed with
  | some allowed => allowed.any fun n => (n : Int) = bodyBytes
  | none => bodyBytes ≥ layout.minimum && bodyBytes ≤ layout.maximum

/-- `M3_PROTOCOL_VERSION` and its objects. -/
def m3 : Envelope := ⟨1, m3ObjectLayout, validM3BodyLength⟩

/-- `PEER_PROTOCOL_VERSION` and its objects. -/
def peer : Envelope := ⟨3, peerObjectLayout, validPeerBodyLength⟩

def encodeM3Object (alloc : Alloc) (value : Option Properties) : Option Bytes :=
  m3.encodeObject alloc value

def decodeM3Object (encoded : Value) : Option Decoded := m3.decodeObject encoded

def encodePeerObject (alloc : Alloc) (value : Option Properties) : Option Bytes :=
  peer.encodeObject alloc value

def decodePeerObject (encoded : Value) : Option Decoded := peer.decodeObject encoded

/-! ## Numbers in the header -/

theorem writeUint32_start {value : Nat} {r : Bytes} (hr : 4 ≤ r.length) :
    writeUint32 r value 0 = writeUintBE 4 value ++ r.drop 4 := by
  match r, hr with
  | a :: b :: c :: d :: rest, _ =>
    simp [writeUint32, writeUintBE, Nat.shiftRight_eq_div_pow, Nat.div_div_eq_div_mul]

theorem writeUint16BE_next {value i : Nat} {w r : Bytes} (hw : i = w.length)
    (hr : 2 ≤ r.length) :
    writeUint16BE (w ++ r) value i = (w ++ writeUintBE 2 value) ++ r.drop 2 := by
  subst hw
  match r, hr with
  | a :: b :: rest, _ =>
    unfold writeUint16BE
    rw [set_next, List.append_assoc, List.set_append_right _ _ (by omega),
      Nat.add_sub_cancel_left]
    simp [writeUintBE, Nat.shiftRight_eq_div_pow]

def header (version id bodyBytes : Nat) : Bytes :=
  writeUintBE 4 version ++ (writeUintBE 2 id ++ writeUintBE 2 bodyBytes)

@[simp] theorem length_header (version id bodyBytes : Nat) :
    (header version id bodyBytes).length = 8 := by
  simp [header]

theorem readUint16_eq (a b : UInt8) :
    (a.toNat <<< 8) ||| b.toNat = [a, b].foldl (fun value b => value * 256 + b.toNat) 0 := by
  rw [shiftLeft_or_toNat]
  simp

theorem read_header {version id bodyBytes : Nat} (hv : version < 2 ^ 32) (hid : id < 2 ^ 16)
    (hb : bodyBytes < 2 ^ 16) (rest : Bytes) :
    readUint32 (header version id bodyBytes ++ rest) 0 = version ∧
      readUint16 (header version id bodyBytes ++ rest) 4 = id ∧
      readUint16 (header version id bodyBytes ++ rest) 6 = bodyBytes := by
  refine ⟨?_, ?_, ?_⟩
  · simp only [readUint32, header, writeUintBE, List.nil_append, List.cons_append,
      List.getD_cons_zero, List.getD_cons_succ, UInt8.toNat_ofNat', Nat.shiftLeft_eq]
    omega
  · simp only [readUint16, header, writeUintBE, List.nil_append, List.cons_append,
      List.getD_cons_zero, List.getD_cons_succ]
    rw [shiftLeft_or_toNat]
    simp only [UInt8.toNat_ofNat']
    omega
  · simp only [readUint16, header, writeUintBE, List.nil_append, List.cons_append,
      List.getD_cons_zero, List.getD_cons_succ]
    rw [shiftLeft_or_toNat]
    simp only [UInt8.toNat_ofNat']
    omega

theorem header_read {w : Bytes} (h : 8 ≤ w.length) :
    header (readUint32 w 0) (readUint16 w 4) (readUint16 w 6) = w.take 8 := by
  match w, h with
  | a :: b :: c :: d :: i :: j :: k :: l :: rest, _ =>
    have h32 : readUint32 (a :: b :: c :: d :: i :: j :: k :: l :: rest) 0 =
        [a, b, c, d].foldl (fun value b => value * 256 + b.toNat) 0 := by
      simp only [readUint32, List.getD_cons_zero, List.getD_cons_succ, Nat.shiftLeft_eq,
        List.foldl_cons, List.foldl_nil]
      omega
    unfold header
    rw [h32, show readUint16 (a :: b :: c :: d :: i :: j :: k :: l :: rest) 4 =
        [i, j].foldl (fun value b => value * 256 + b.toNat) 0 from readUint16_eq i j,
      show readUint16 (a :: b :: c :: d :: i :: j :: k :: l :: rest) 6 =
        [k, l].foldl (fun value b => value * 256 + b.toNat) 0 from readUint16_eq k l]
    have h₁ := writeUintBE_foldl [a, b, c, d]
    have h₂ := writeUintBE_foldl [i, j]
    have h₃ := writeUintBE_foldl [k, l]
    simp only [List.length_cons, List.length_nil, Nat.zero_add, Nat.reduceAdd] at h₁ h₂ h₃
    rw [h₁, h₂, h₃]
    rfl

/-! ## What an envelope accepts -/

variable {e : Envelope} {alloc : Alloc}

/-- The numbers of a table fit their fields. -/
structure Envelope.Fits (e : Envelope) : Prop where
  version : e.version < 2 ^ 32
  ids : ∀ row ∈ e.table, 0 ≤ row.1 ∧ row.1 < 2 ^ 16
  lengths : ∀ row ∈ e.table, ∀ n, e.validBodyLength n row.2 = true → 0 ≤ n ∧ n < 2 ^ 16

/-- The row of the message id allows the lengths of the body and the suffix. -/
def Envelope.Allows (e : Envelope) (id : Nat) (body auth : Bytes) : Prop :=
  ∃ layout, e.table.lookup (id : Int) = some layout ∧
    e.validBodyLength body.length layout = true ∧ auth.length = layout.auth

def Envelope.object (e : Envelope) (id : Nat) (body auth : Bytes) : Bytes :=
  header e.version id body.length ++ (body ++ auth)

theorem mem_of_lookup {id : Int} {layout : Layout} (h : e.table.lookup id = some layout) :
    (id, layout) ∈ e.table := by
  obtain ⟨before, after, htable, -⟩ := List.lookup_eq_some_iff.mp h
  rw [htable]
  simp

theorem Envelope.Allows.id_lt (hf : e.Fits) {id : Nat} {body auth : Bytes}
    (h : e.Allows id body auth) : id < 2 ^ 16 := by
  obtain ⟨layout, hrow, -⟩ := h
  have := hf.ids _ (mem_of_lookup hrow)
  dsimp only at this
  omega

theorem Envelope.Allows.length_lt (hf : e.Fits) {id : Nat} {body auth : Bytes}
    (h : e.Allows id body auth) : body.length < 2 ^ 16 := by
  obtain ⟨layout, hrow, hvalid, -⟩ := h
  have := hf.lengths _ (mem_of_lookup hrow) _ hvalid
  omega

theorem objectLayout_of_lookup (hf : e.Fits) {id : Int} {layout : Layout}
    (h : e.table.lookup id = some layout) : e.objectLayout (.number id) = some layout := by
  have := hf.ids _ (mem_of_lookup h)
  dsimp only at this
  unfold Envelope.objectLayout
  dsimp only
  rw [if_pos (by unfold maxSafeInteger; omega), h]

theorem lookup_of_objectLayout {v : Value} {layout : Layout} (h : e.objectLayout v = some layout) :
    ∃ id, v = .number id ∧ e.table.lookup id = some layout := by
  unfold Envelope.objectLayout at h
  split at h
  · next id =>
    split at h
    · exact ⟨id, rfl, h⟩
    · cases h
  · cases h

@[simp] theorem bufferLength_buffer (b : Bytes) : bufferLength (.buffer b) = b.length := rfl

@[simp] theorem setValue_buffer (target b : Bytes) (offset : Nat) :
    setValue target (.buffer b) offset = setBytes target b offset := rfl

theorem write_object {r body auth : Bytes} (hr : r.length = 8 + body.length + auth.length)
    (version id : Nat) :
    ((setBytes (writeUint16BE (writeUint16BE (writeUint32 r version 0) id 4) body.length 6)
      body 8).bind fun output => setBytes output auth (8 + body.length)) =
      some (header version id body.length ++ (body ++ auth)) := by
  rw [writeUint32_start (by omega), writeUint16BE_next (by simp) (by simp; omega),
    writeUint16BE_next (by simp) (by simp; omega), setBytes_next (by simp) (by simp; omega),
    Option.bind_some, setBytes_next (by simp; omega) (by simp; omega)]
  have hrest : ((((r.drop 4).drop 2).drop 2).drop body.length).drop auth.length = [] := by
    simp only [List.drop_drop]
    exact List.drop_eq_nil_of_le (by omega)
  rw [hrest]
  simp [header]

theorem encodeObject_of_allows (hf : e.Fits) {value : Option Properties} {id : Nat}
    {body auth : Bytes} (hv : objectOptions value = some (.number id, .buffer body, .buffer auth))
    (h : e.Allows id body auth) : e.encodeObject alloc value = some (e.object id body auth) := by
  have hlen := h.length_lt hf
  obtain ⟨layout, hrow, hvalid, hauth⟩ := h
  have hsized := (alloc (8 + body.length + layout.auth)).property
  unfold Envelope.encodeObject
  rw [hv]
  simp only [Option.bind_eq_bind, Option.bind_some, objectLayout_of_lookup hf hrow,
    setValue_buffer]
  refine (if_neg ?_).trans (write_object (hsized.trans (by rw [hauth])) _ _)
  rw [Bool.or_eq_true, Bool.or_eq_true, decide_eq_true_eq, decide_eq_true_eq]
  simp only [bufferLength_buffer, hvalid, Bool.not_true, Bool.false_eq_true, false_or]
  omega

theorem encodeObject_eq_some_iff (hf : e.Fits) {value : Option Properties} {w : Bytes} :
    e.encodeObject alloc value = some w ↔ ∃ (id : Nat) (body auth : Bytes),
      objectOptions value = some (.number id, .buffer body, .buffer auth) ∧
      e.Allows id body auth ∧ w = e.object id body auth := by
  constructor
  · intro h
    have hsome := h
    unfold Envelope.encodeObject at h
    obtain ⟨⟨messageId, body, authSuffix⟩, hv, h⟩ := Option.bind_eq_some_iff.mp h
    obtain ⟨layout, hlayout, h⟩ := Option.bind_eq_some_iff.mp h
    obtain ⟨id, rfl, hrow⟩ := lookup_of_objectLayout hlayout
    dsimp only at h
    split at h
    · cases h
    · next hcheck =>
      simp only [Bool.or_eq_true, Bool.not_eq_true', decide_eq_true_eq, not_or, not_lt, ne_eq,
        not_not, Bool.not_eq_false] at hcheck
      obtain ⟨⟨hvalid, -⟩, hauth⟩ := hcheck
      have hidpos := (hf.ids _ (mem_of_lookup hrow)).1
      have hbody := (hf.lengths _ (mem_of_lookup hrow) _ hvalid).1
      obtain ⟨n, rfl⟩ := Int.eq_ofNat_of_zero_le hidpos
      cases body with
      | buffer b =>
        cases authSuffix with
        | buffer a =>
          have hallows : e.Allows n b a := ⟨layout, hrow, hvalid, by
            unfold bufferLength at hauth
            dsimp only at hauth
            omega⟩
          refine ⟨n, b, a, hv, hallows, ?_⟩
          exact Option.some.inj (hsome.symm.trans (encodeObject_of_allows hf hv hallows))
        | _ =>
          unfold bufferLength at hauth
          dsimp only at hauth
          omega
      | _ =>
        unfold bufferLength at hbody
        dsimp only at hbody
        omega
  · rintro ⟨id, body, auth, hv, hallows, rfl⟩
    exact encodeObject_of_allows hf hv hallows

theorem decodeObject_object (hf : e.Fits) {id : Nat} {body auth : Bytes}
    (h : e.Allows id body auth) :
    e.decodeObject (.buffer (e.object id body auth)) = some ⟨e.version, id, body, auth⟩ := by
  obtain ⟨hversion, hid, hbody⟩ :=
    read_header hf.version (h.id_lt hf) (h.length_lt hf) (body ++ auth)
  obtain ⟨layout, hrow, hvalid, hauth⟩ := h
  have hlen : (e.object id body auth).length = 8 + body.length + layout.auth := by
    rw [Envelope.object, List.length_append, length_header, List.length_append, hauth]
    omega
  have hdrop : (e.object id body auth).drop 8 = body ++ auth := by
    rw [Envelope.object]
    exact List.drop_left' (length_header _ _ _)
  unfold Envelope.decodeObject
  dsimp only
  rw [if_neg (by rw [hlen]; unfold Envelope.object; rw [hversion]; omega)]
  have hid' : readUint16 (e.object id body auth) 4 = id := hid
  have hbody' : readUint16 (e.object id body auth) 6 = body.length := hbody
  simp only [hid', hbody', Option.bind_eq_bind, objectLayout_of_lookup hf hrow, Option.bind_some]
  rw [if_neg (by simp [hvalid, hlen]), hdrop, ← List.drop_drop, hdrop, List.take_left' rfl,
    List.drop_left' rfl, List.take_of_length_le (by omega)]

theorem decodeObject_eq_some_iff (hf : e.Fits) {w : Bytes} {d : Decoded} :
    e.decodeObject (.buffer w) = some d ↔
      d.protocolVersion = e.version ∧ e.Allows d.messageId d.body d.authSuffix ∧
        w = e.object d.messageId d.body d.authSuffix := by
  constructor
  · intro h
    unfold Envelope.decodeObject at h
    dsimp only at h
    split at h
    · cases h
    · next hstart =>
      rw [not_or, not_not] at hstart
      obtain ⟨hle, hversion⟩ := hstart
      obtain ⟨layout, hlayout, h⟩ := Option.bind_eq_some_iff.mp h
      obtain ⟨id, hid, hrow⟩ := lookup_of_objectLayout hlayout
      obtain rfl := Value.number.inj hid
      split at h
      · cases h
      · next hcheck =>
        simp only [Bool.or_eq_true, Bool.not_eq_true', decide_eq_true_eq, not_or, ne_eq, not_not,
          Bool.not_eq_false] at hcheck
        obtain ⟨hvalid, hlen⟩ := hcheck
        obtain rfl := Option.some.inj h
        have hbody : ((w.drop 8).take (readUint16 w 6)).length = readUint16 w 6 := by
          rw [List.length_take, List.length_drop]
          omega
        have hrest : (w.drop (8 + readUint16 w 6)).take (w.length - (8 + readUint16 w 6)) =
            w.drop (8 + readUint16 w 6) := by
          rw [List.take_of_length_le]
          rw [List.length_drop]
        dsimp only
        rw [hrest]
        refine ⟨rfl, ⟨layout, hrow, by rw [hbody]; exact hvalid, ?_⟩, ?_⟩
        · rw [List.length_drop]
          omega
        · unfold Envelope.object
          rw [hbody, ← hversion, header_read (by omega), ← List.drop_drop, List.take_append_drop,
            List.take_append_drop]
  · rintro ⟨hversion, hallows, rfl⟩
    rw [decodeObject_object hf hallows, ← hversion]

/-! ## Both pairs are exact -/

/-- An encoder and a decoder that are inverse to each other on what they accept. -/
structure Exact (encode : Option Properties → Option Bytes) (decode : Value → Option Decoded) :
    Prop where
  roundTrip : ∀ value w, encode value = some w → ∃ (version id : Nat) (body auth : Bytes),
    objectOptions value = some (.number id, .buffer body, .buffer auth) ∧
    decode (.buffer w) = some ⟨version, id, body, auth⟩
  canonical : ∀ w d, decode (.buffer w) = some d →
    encode (some ⟨.data (.number d.messageId), .data (.buffer d.body),
      .data (.buffer d.authSuffix)⟩) = some w
  image : ∀ w, (∃ d, decode (.buffer w) = some d) ↔ ∃ value, encode value = some w
  split : ∀ value value' w, encode value = some w → encode value' = some w →
    objectOptions value = objectOptions value'

theorem Envelope.Fits.exact (hf : e.Fits) (alloc : Alloc) :
    Exact (e.encodeObject alloc) e.decodeObject := by
  have hround : ∀ value w, e.encodeObject alloc value = some w →
      ∃ (id : Nat) (body auth : Bytes),
        objectOptions value = some (.number id, .buffer body, .buffer auth) ∧
        e.decodeObject (.buffer w) = some ⟨e.version, id, body, auth⟩ := by
    intro value w h
    obtain ⟨id, body, auth, hv, hallows, rfl⟩ := (encodeObject_eq_some_iff hf).mp h
    exact ⟨id, body, auth, hv, decodeObject_object hf hallows⟩
  have hcanonical : ∀ w d, e.decodeObject (.buffer w) = some d →
      e.encodeObject alloc (some ⟨.data (.number d.messageId), .data (.buffer d.body),
        .data (.buffer d.authSuffix)⟩) = some w := by
    intro w d h
    obtain ⟨-, hallows, rfl⟩ := (decodeObject_eq_some_iff hf).mp h
    exact encodeObject_of_allows hf rfl hallows
  refine ⟨fun value w h => ⟨e.version, hround value w h⟩, hcanonical, fun w => ⟨?_, ?_⟩, ?_⟩
  · rintro ⟨d, hd⟩
    exact ⟨_, hcanonical w d hd⟩
  · rintro ⟨value, h⟩
    obtain ⟨id, body, auth, -, hd⟩ := hround value w h
    exact ⟨_, hd⟩
  · intro value value' w h h'
    obtain ⟨id, body, auth, hv, hd⟩ := hround value w h
    obtain ⟨id', body', auth', hv', hd'⟩ := hround value' w h'
    obtain ⟨-, rfl, rfl, rfl⟩ := Decoded.mk.inj (Option.some.inj (hd.symm.trans hd'))
    exact hv.trans hv'.symm

theorem m3_fits : m3.Fits where
  version := by decide
  ids := by decide
  lengths row hrow n h := by
    have hmax : ∀ row ∈ m3ObjectLayout, row.2.maximum < 2 ^ 16 := by decide
    have := hmax row hrow
    have hn : (row.2.minimum : Int) ≤ n ∧ n ≤ row.2.maximum := by
      simpa [m3, validM3BodyLength] using h
    omega

theorem peer_fits : peer.Fits where
  version := by decide
  ids := by decide
  lengths row hrow n h := by
    have hmax : ∀ row ∈ peerObjectLayout, row.2.maximum < 2 ^ 16 ∧
        ∀ k ∈ row.2.allowed.getD [], k < 2 ^ 16 := by decide
    obtain ⟨hrange, hallowed⟩ := hmax row hrow
    replace h : validPeerBodyLength n row.2 = true := h
    unfold validPeerBodyLength at h
    split at h
    · next allowed heq =>
      obtain ⟨k, hk, hkn⟩ := List.any_eq_true.mp h
      have hlt := hallowed k (by rw [heq]; exact hk)
      have hn : (k : Int) = n := of_decide_eq_true hkn
      omega
    · rw [Bool.and_eq_true, decide_eq_true_eq, decide_eq_true_eq] at h
      omega

/-- What an encoder accepts its decoder gives back, with the same split into body and suffix;
what a decoder accepts is what its encoder makes of it, and nothing else is accepted; every
length of a row fits its field; and no object is accepted by both decoders. -/
theorem envelopes_exact (alloc : Alloc) :
    Exact (encodeM3Object alloc) decodeM3Object ∧
    Exact (encodePeerObject alloc) decodePeerObject ∧
    (∀ row ∈ m3ObjectLayout, ∀ n, validM3BodyLength n row.2 = true → 0 ≤ n ∧ n ≤ 0xffff) ∧
    (∀ row ∈ peerObjectLayout, ∀ n, validPeerBodyLength n row.2 = true → 0 ≤ n ∧ n ≤ 0xffff) ∧
    ∀ w d d', ¬ (decodeM3Object w = some d ∧ decodePeerObject w = some d') := by
  refine ⟨m3_fits.exact alloc, peer_fits.exact alloc, fun row hrow n h => ?_,
    fun row hrow n h => ?_, fun w d d' => ?_⟩
  · have := m3_fits.lengths row hrow n h
    omega
  · have := peer_fits.lengths row hrow n h
    omega
  · rintro ⟨h, h'⟩
    cases w with
    | buffer w =>
      -- the versions differ
      obtain ⟨-, hallows, hw⟩ := (decodeObject_eq_some_iff m3_fits).mp h
      obtain ⟨-, hallows', hw'⟩ := (decodeObject_eq_some_iff peer_fits).mp h'
      have hread := (read_header m3_fits.version (hallows.id_lt m3_fits)
        (hallows.length_lt m3_fits) (d.body ++ d.authSuffix)).1
      have hread' := (read_header peer_fits.version (hallows'.id_lt peer_fits)
        (hallows'.length_lt peer_fits) (d'.body ++ d'.authSuffix)).1
      unfold Envelope.object at hw hw'
      rw [← hw] at hread
      rw [← hw'] at hread'
      exact absurd (hread.symm.trans hread') (by decide)
    | _ => cases h

end HyperDht.Private.ObjectEnvelopes
