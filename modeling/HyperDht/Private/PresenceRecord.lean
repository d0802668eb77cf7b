import HyperDht.Dht.Mutables
import HyperDht.Private.CellBuffers
import HyperDht.Private.Presence

/-!
# Sealing presence records

`encodePresenceRecord` and `openPresenceRecord` of `lib/private/blinded-presence.js` with the
bytes they handle. The body of a record has a fixed size: type, period, tombstone scope and
target, the descriptor's length, and the descriptor followed by zeros. It is sealed under a key
made of reader secret, blinded public key and period, and the value with the ciphertext is
signed as a mutable record whose sequence number is the revision.
-/

namespace HyperDht.Private.PresenceRecord

open Presence CompactEncoding

inductive RecordError where
  | invalidKey
  | invalidDescriptor
  | unauthorized
  | authentication
  /-- A write or an encoding that throws no error of the module. -/
  | outOfRange
deriving DecidableEq, Repr

/-- What comes from outside: the mutable records of the node, the suite's hash and AEAD, and
`deriveBlindedPublicKey`, which is `none` where it throws. -/
structure Suite where
  mutables : Mutables.Env
  hash : Bytes → Fixed 32
  aead : Aead
  deriveBlindedPublicKey : Bytes → Nat → Option (Fixed 32)
  alloc : Nat → Bytes

def readerDomain : Bytes := "hyperdht-private-routes/presence/reader/v1\n".toUTF8.toList
def adDomain : Bytes := "hyperdht-private-routes/presence/ad/v1\n".toUTF8.toList

def isRecordTombstoneTarget (value : Option Bytes) : Bool :=
  value.any fun b => b.length == 32 && !isAllZero b

/-- A write that throws where it does not fit. -/
def write (buffer source : Bytes) (offset : Nat) : Except RecordError Bytes :=
  match setBytes buffer source offset with
  | none => .error .outOfRange
  | some buffer => .ok buffer

def buildAssociatedData (publicKey : Bytes) (version : UInt8) (period revision : Nat) : Bytes :=
  adDomain ++ publicKey ++ [version] ++ writeUintBE 8 period ++ writeUintBE 4 revision

def readerInput (readerSecret publicKey : Bytes) (period : Nat) : Bytes :=
  readerDomain ++ (readerSecret ++ (publicKey ++ writeUintBE 8 period))

def deriveReaderKey (s : Suite) (readerSecret publicKey : Bytes) (period : Int) :
    Except RecordError Bytes :=
  if readerSecret.length ≠ 32 then .error .invalidKey
  else if publicKey.length ≠ 32 then .error .invalidKey
  else if uint64 period = false then .error .invalidDescriptor
  else .ok (s.hash (readerInput readerSecret publicKey period.toNat)).val

/-- The descriptor is `none` where it is `null`. -/
def encodeBody (type period scope : Int) (target : Bytes) (descriptor : Option Bytes) :
    Except RecordError Bytes :=
  if type ≠ 1 ∧ type ≠ 2 then .error .invalidDescriptor
  else if uint64 period = false then .error .invalidDescriptor
  else do
    let body := zeros (bodyFixedBytes + maxDescriptorBytes)
    let body := body.set 0 (UInt8.ofNat type.toNat)
    let body ← write body (writeUintBE 8 period.toNat) 1
    let body := body.set 9 (UInt8.ofNat scope.toNat)
    let body ← write body target 10
    if type = 1 then
      if scope ≠ 0 ∨ isAllZero target = false then .error .invalidDescriptor
      else
        match descriptor with
        | none => .error .invalidDescriptor
        | some descriptor =>
          if maxDescriptorBytes < descriptor.length then .error .invalidDescriptor
          else do
            let body ← write body (writeUintBE 2 descriptor.length) 42
            write body descriptor 44
    else if descriptor.any (fun d => d.length != 0) then .error .invalidDescriptor
    else if scope ≠ 1 ∧ scope ≠ 2 then .error .invalidDescriptor
    else if target.length ≠ 32 then .error .invalidDescriptor
    else if scope = 2 ∧ isRecordTombstoneTarget (some target) = false then
      .error .invalidDescriptor
    else if scope = 1 ∧ isAllZero target = false then .error .invalidDescriptor
    else write body (writeUintBE 2 0) 42

/-! ## Encoding -/

/-- The blinded public key and what it signs with; a signer that was destroyed throws. -/
structure Signer where
  publicKey : Bytes
  sign : Bytes → Option (Fixed 64)

structure Tombstone where
  scope : Int
  target : Option Bytes

/-- The options of a record. A descriptor or target that is no buffer is `none`. -/
structure Options where
  signer : Signer
  period : Int
  revision : Int
  readerSecret : Bytes
  type : Int
  descriptor : Option Bytes
  tombstone : Option Tombstone

structure Record where
  publicKey : Bytes
  seq : Int
  value : Bytes
deriving DecidableEq

/-- `tombstoneScope`, `tombstoneTarget` and `descriptor`. -/
def Options.fields (o : Options) : Except RecordError (Int × Bytes × Option Bytes) :=
  if o.type = 1 then
    match o.descriptor with
    | none => .error .invalidDescriptor
    | some descriptor =>
      if maxDescriptorBytes < descriptor.length then .error .invalidDescriptor
      else .ok (0, zeros 32, some descriptor)
  else if o.type = 2 then
    match o.tombstone with
    | none => .error .invalidDescriptor
    | some tombstone =>
      if tombstone.scope = 2 then
        if isRecordTombstoneTarget tombstone.target = false then .error .invalidDescriptor
        else .ok (2, tombstone.target.getD [], none)
      else if tombstone.scope = 1 then .ok (1, zeros 32, none)
      else .error .invalidDescriptor
  else .error .invalidDescriptor

/-- The value of a record: version, revision, nonce and ciphertext. -/
def writeValue (revision : Int) (noncePrefix ciphertext : Bytes) : Except RecordError Bytes :=
  if ciphertext.length ≠ bodyFixedBytes + maxDescriptorBytes + aeadTagBytes then
    .error .invalidDescriptor
  else do
    let value := (zeros recordSize).set 0 recordVersion
    let value ← write value (writeUintBE 4 revision.toNat) 1
    let value ← write value noncePrefix 5
    write value ciphertext headerBytes

def Options.check (o : Options) : Except RecordError Unit :=
  if o.signer.publicKey.length ≠ 32 then .error .invalidKey
  else if uint64 o.period = false then .error .invalidDescriptor
  else if isUint32 o.revision = false then .error .invalidDescriptor
  else if o.readerSecret.length ≠ 32 then .error .invalidKey
  else .ok ()

/-- `noncePrefix` is what `randomBytes(16)` gives. -/
def encodePresenceRecord (s : Suite) (noncePrefix : Fixed 16) (o : Options) :
    Except RecordError Record := do
  o.check
  let (scope, target, descriptor) ← o.fields
  let body ← encodeBody o.type o.period scope target descriptor
  let readerKey ← deriveReaderKey s o.readerSecret o.signer.publicKey o.period
  let associatedData :=
    buildAssociatedData o.signer.publicKey recordVersion o.period.toNat o.revision.toNat
  match suiteSeal s.aead s.alloc readerKey noncePrefix.val 0 associatedData body with
  | none => .error .outOfRange
  | some ciphertext =>
    let value ← writeValue o.revision noncePrefix.val ciphertext
    .ok ⟨o.signer.publicKey, o.revision, value⟩

/-- What `c.encode(m.mutableSignable, ..)` is given. -/
def mutableSignable (revision : Int) (value : Bytes) : Option Mutables.MutableSignable :=
  if h : revision.toNat < 2 ^ 53 + 1 ∧ value.length < 2 ^ 53 + 1 then
    some ⟨.ofNat revision.toNat, some ⟨value, h.2⟩⟩
  else none

/-- `signMutable` of a record that was encoded with these options. -/
def signMutable (s : Suite) (signer : Signer) (record : Record) (seq : Int) (recordValue : Bytes)
    (publicKey : Option Bytes) : Except RecordError (Fixed 64) :=
  if seq ≠ record.seq then .error .unauthorized
  else if publicKey ≠ some record.publicKey then .error .unauthorized
  else if recordValue.length ≠ recordSize then .error .invalidDescriptor
  else if recordValue ≠ record.value then .error .unauthorized
  else
    match (mutableSignable record.seq record.value).bind
        (Mutables.mutableSignable.run s.mutables.alloc) with
    | none => .error .outOfRange
    | some encoded =>
      match signer.sign (s.mutables.mutablePut.val ++ (s.mutables.hash encoded).val) with
      | none => .error .unauthorized
      | some signature => .ok signature

/-! ## Opening -/

structure OpenOptions where
  identityPublicKey : Bytes
  period : Int
  revision : Int
  readerSecret : Bytes
  value : Bytes
  signature : Bytes

structure OpenedRecord where
  period : Int
  revision : Int
  body : Presence.Body
deriving DecidableEq

def verifyMutable (s : Suite) (signature : Fixed 64) (revision : Int) (value : Bytes)
    (publicKey : Fixed 32) : Option Bool := do
  let signable ← mutableSignable revision value
  let value ← signable.value
  Mutables.verifyMutable s.mutables signature signable.seq value publicKey

/-- The plaintext of a value, where it is signed and opens. -/
def openValue (s : Suite) (o : OpenOptions) (signature : Fixed 64) (publicKey : Fixed 32) :
    Except RecordError Bytes :=
  if o.value[0]? ≠ some recordVersion then .error .invalidDescriptor
  else if (readUintBE o.value 1 4 : Int) ≠ o.revision then .error .invalidDescriptor
  else if verifyMutable s signature o.revision o.value publicKey ≠ some true then
    .error .authentication
  else do
    let readerKey ← deriveReaderKey s o.readerSecret publicKey.val o.period
    let associatedData :=
      buildAssociatedData publicKey.val recordVersion o.period.toNat o.revision.toNat
    match suiteOpen s.aead s.alloc readerKey (subarray o.value 5 21) 0 associatedData
        (o.value.drop headerBytes) with
    | none => .error .authentication
    | some plaintext => .ok plaintext

/-- The checks before anything is derived. -/
def OpenOptions.check (o : OpenOptions) : Except RecordError Unit :=
  if o.identityPublicKey.length ≠ 32 then .error .invalidKey
  else if uint64 o.period = false then .error .invalidDescriptor
  else if isUint32 o.revision = false then .error .invalidDescriptor
  else if o.readerSecret.length ≠ 32 then .error .invalidKey
  else if o.value.length ≠ recordSize then .error .invalidDescriptor
  else .ok ()

/-- `openPresenceRecord` up to the checks on the plaintext. -/
def openPlaintext (s : Suite) (o : OpenOptions) : Except RecordError Bytes := do
  o.check
  if h : o.signature.length = 64 then
    match s.deriveBlindedPublicKey o.identityPublicKey o.period.toNat with
    | none => .error .invalidKey
    | some publicKey => openValue s o ⟨o.signature, h⟩ publicKey
  else .error .authentication

/-- `openPresenceRecord`. The checks on the plaintext are `openBody`. -/
def openPresenceRecord (s : Suite) (o : OpenOptions) : Except RecordError OpenedRecord := do
  let plaintext ← openPlaintext s o
  match openBody o.period.toNat plaintext with
  | .error _ => .error .invalidDescriptor
  | .ok body => .ok ⟨o.period, o.revision, body⟩

/-! ## The body -/

/-- The fields of a body, as `encodeBody` takes them. -/
def typeOf : Presence.Body → Int
  | .descriptor _ => 1
  | .tombstone _ _ => 2

def scopeOf : Presence.Body → Int
  | .descriptor _ => 0
  | .tombstone .period _ => 1
  | .tombstone .record _ => 2

def targetOf : Presence.Body → Bytes
  | .descriptor _ => zeros 32
  | .tombstone _ target => target

def descriptorOf : Presence.Body → Option Bytes
  | .descriptor bytes => some bytes
  | .tombstone _ _ => none

/-- The rules for a body's length, scope and target. -/
def Valid : Presence.Body → Prop
  | .descriptor bytes => bytes.length ≤ maxDescriptorBytes
  | .tombstone .period target => target = zeros 32
  | .tombstone .record target => target.length = 32 ∧ isAllZero target = false

def dataOf (b : Presence.Body) : Bytes := (descriptorOf b).getD []

def bodyBytes (period : Nat) (b : Presence.Body) : Bytes :=
  [UInt8.ofNat (typeOf b).toNat] ++ (writeUintBE 8 period ++ ([UInt8.ofNat (scopeOf b).toNat] ++
    (targetOf b ++ (writeUintBE 2 (dataOf b).length ++ (dataOf b ++
      zeros (maxDescriptorBytes - (dataOf b).length))))))

@[simp] theorem length_zeros (n : Nat) : (zeros n).length = n := List.length_replicate

theorem isAllZero_zeros (n : Nat) : isAllZero (zeros n) = true := by
  unfold isAllZero zeros
  rw [List.all_eq_true]
  intro b hb
  rw [(List.mem_replicate.mp hb).2]
  rfl

theorem eq_zeros {b : Bytes} (h : isAllZero b = true) : b = zeros b.length := by
  refine List.eq_replicate_iff.mpr ⟨rfl, fun x hx => ?_⟩
  have := List.all_eq_true.mp h x hx
  simpa using this

theorem Valid.length_target {b : Presence.Body} (h : Valid b) : (targetOf b).length = 32 := by
  match b, h with
  | .descriptor _, _ => exact length_zeros 32
  | .tombstone .period _, h =>
    rw [targetOf, show _ = zeros 32 from h, length_zeros]
  | .tombstone .record _, h => exact h.1

theorem Valid.length_data {b : Presence.Body} (h : Valid b) :
    (dataOf b).length ≤ maxDescriptorBytes := by
  match b, h with
  | .descriptor _, h => exact h
  | .tombstone _ _, _ => exact Nat.zero_le _

theorem length_bodyBytes {b : Presence.Body} (h : Valid b) (period : Nat) :
    (bodyBytes period b).length = bodyFixedBytes + maxDescriptorBytes := by
  have htarget := h.length_target
  have hdata := h.length_data
  simp only [bodyBytes, List.length_append, List.length_singleton, length_writeUintBE,
    length_zeros, htarget]
  unfold bodyFixedBytes
  omega

theorem write_next {w r source : Bytes} {i : Nat} (hw : i = w.length)
    (hr : source.length ≤ r.length) :
    write (w ++ r) source i = .ok ((w ++ source) ++ r.drop source.length) := by
  unfold write
  rw [setBytes_next hw hr]

theorem set_zeros {w : Bytes} {i n : Nat} (hw : i = w.length) (v : UInt8) :
    (w ++ zeros (n + 1)).set i v = (w ++ [v]) ++ zeros n := by
  subst hw
  exact set_next w 0 v (zeros n)

theorem drop_zeros (n k : Nat) : (zeros n).drop k = zeros (n - k) := List.drop_replicate

theorem write_fields {period : Nat} {type scope : UInt8} {target : Bytes}
    (ht : target.length = 32) :
    (write ((zeros (bodyFixedBytes + maxDescriptorBytes)).set 0 type) (writeUintBE 8 period) 1 >>=
      fun body => write (body.set 9 scope) target 10) =
      .ok (([type] ++ (writeUintBE 8 period ++ ([scope] ++ target))) ++
        zeros (2 + maxDescriptorBytes)) := by
  have h0 : (zeros (bodyFixedBytes + maxDescriptorBytes)).set 0 type =
      [type] ++ zeros (43 + maxDescriptorBytes) := by
    rw [show bodyFixedBytes + maxDescriptorBytes = 43 + maxDescriptorBytes + 1 by
      unfold bodyFixedBytes; omega]
    exact set_zeros (w := []) rfl type
  rw [h0, write_next (w := [type]) (i := 1) rfl (by simp; omega), length_writeUintBE, drop_zeros]
  show write ((([type] ++ writeUintBE 8 period) ++ zeros (43 + maxDescriptorBytes - 8)).set 9 scope)
    target 10 = _
  rw [show 43 + maxDescriptorBytes - 8 = 34 + maxDescriptorBytes + 1 by omega,
    set_zeros (by simp), write_next (by simp) (by simp; omega), ht, drop_zeros,
    show 34 + maxDescriptorBytes - 32 = 2 + maxDescriptorBytes by omega]
  simp

theorem write_length {w : Bytes} (hw : w.length = 42) (n : Nat) :
    write (w ++ zeros (2 + maxDescriptorBytes)) (writeUintBE 2 n) 42 =
      .ok ((w ++ writeUintBE 2 n) ++ zeros maxDescriptorBytes) := by
  rw [write_next hw.symm (by simp), length_writeUintBE, drop_zeros,
    show 2 + maxDescriptorBytes - 2 = maxDescriptorBytes by omega]

theorem write_rest {w data : Bytes} (hw : w.length = 42) (hd : data.length ≤ maxDescriptorBytes) :
    (write (w ++ zeros (2 + maxDescriptorBytes)) (writeUintBE 2 data.length) 42 >>=
      fun body => write body data 44) =
      .ok (w ++ (writeUintBE 2 data.length ++ (data ++
        zeros (maxDescriptorBytes - data.length)))) := by
  rw [write_length hw]
  show write ((w ++ writeUintBE 2 data.length) ++ zeros maxDescriptorBytes) data 44 = _
  rw [write_next (by simp [hw]) (by simp; omega), drop_zeros]
  simp

theorem encodeBody_of_valid {b : Presence.Body} (h : Valid b) {period : Int}
    (hp : uint64 period = true) :
    encodeBody (typeOf b) period (scopeOf b) (targetOf b) (descriptorOf b) =
      .ok (bodyBytes period.toNat b) := by
  have htarget := h.length_target
  have hfields : ∀ rest : Bytes → Except RecordError Bytes,
      (write ((zeros (bodyFixedBytes + maxDescriptorBytes)).set 0 (UInt8.ofNat (typeOf b).toNat))
        (writeUintBE 8 period.toNat) 1 >>= fun body =>
        write (body.set 9 (UInt8.ofNat (scopeOf b).toNat)) (targetOf b) 10 >>= rest) =
      rest (([UInt8.ofNat (typeOf b).toNat] ++ (writeUintBE 8 period.toNat ++
        ([UInt8.ofNat (scopeOf b).toNat] ++ targetOf b))) ++ zeros (2 + maxDescriptorBytes)) := by
    intro rest
    rw [← bind_assoc, write_fields htarget]
    rfl
  have hlen : ([UInt8.ofNat (typeOf b).toNat] ++ (writeUintBE 8 period.toNat ++
      ([UInt8.ofNat (scopeOf b).toNat] ++ targetOf b))).length = 42 := by
    simp [htarget]
  unfold encodeBody
  rw [if_neg (by cases b <;> simp [typeOf]), if_neg (by simp [hp]), hfields]
  cases b with
  | descriptor bytes =>
    have hle : bytes.length ≤ maxDescriptorBytes := h
    rw [if_pos (show typeOf (.descriptor bytes) = 1 from rfl),
      if_neg (by simp [scopeOf, targetOf, isAllZero_zeros])]
    dsimp only [descriptorOf]
    rw [if_neg (Nat.not_lt.mpr hle)]
    refine (write_rest hlen hle).trans ?_
    simp [bodyBytes, dataOf, descriptorOf]
  | tombstone scope target =>
    rw [if_neg (show ¬ typeOf (.tombstone scope target) = 1 by simp [typeOf]),
      if_neg (by simp [descriptorOf]), if_neg (by cases scope <;> simp [scopeOf]),
      if_neg (by simp [htarget]), if_neg ?_, if_neg ?_]
    · refine (write_length hlen 0).trans ?_
      simp [bodyBytes, dataOf, descriptorOf]
    · rintro ⟨hscope, hzero⟩
      cases scope with
      | period =>
        rw [targetOf, show target = zeros 32 from h, isAllZero_zeros] at hzero
        cases hzero
      | record => simp [scopeOf] at hscope
    · rintro ⟨hscope, htomb⟩
      cases scope with
      | period => simp [scopeOf] at hscope
      | record =>
        obtain ⟨hl, hz⟩ := h
        simp [isRecordTombstoneTarget, targetOf, hl, hz] at htomb

/-! ## Reading the body -/

theorem subarray_at {a m r : Bytes} {i j : Nat} (hi : i = a.length) (hj : j = i + m.length) :
    subarray (a ++ (m ++ r)) i j = m := by
  subst hi hj
  unfold subarray
  rw [List.drop_left' rfl, Nat.add_sub_cancel_left, List.take_left' rfl]

theorem readUintBE_at {a r : Bytes} {i n v : Nat} (hi : i = a.length) (hv : v < 256 ^ n) :
    readUintBE (a ++ (writeUintBE n v ++ r)) i n = v := by
  unfold readUintBE
  rw [subarray_at hi (by simp), foldl_writeUintBE, Nat.zero_mul, Nat.zero_add,
    Nat.mod_eq_of_lt hv]

theorem length_subarray {w : Bytes} {i n : Nat} (h : i + n ≤ w.length) :
    (subarray w i (i + n)).length = n := by
  unfold subarray
  rw [List.length_take, List.length_drop]
  omega

theorem writeUintBE_readUintBE {w : Bytes} {i n : Nat} (h : i + n ≤ w.length) :
    writeUintBE n (readUintBE w i n) = subarray w i (i + n) := by
  have hfold := writeUintBE_foldl (subarray w i (i + n))
  rwa [length_subarray h] at hfold

theorem drop_eq_subarray {w : Bytes} (i n : Nat) :
    w.drop i = subarray w i (i + n) ++ w.drop (i + n) := by
  unfold subarray
  rw [Nat.add_sub_cancel_left, ← List.drop_drop, List.take_append_drop]

theorem body_eq_fields {w : Bytes} (h : w.length = bodyFixedBytes + maxDescriptorBytes) :
    w = writeUintBE 1 (readUintBE w 0 1) ++ (writeUintBE 8 (readUintBE w 1 8) ++
      (writeUintBE 1 (readUintBE w 9 1) ++ (subarray w 10 42 ++
        (writeUintBE 2 (readUintBE w 42 2) ++ subarray w 44 (44 + maxDescriptorBytes))))) := by
  have hfixed : bodyFixedBytes = 44 := rfl
  rw [writeUintBE_readUintBE (by omega), writeUintBE_readUintBE (by omega),
    writeUintBE_readUintBE (by omega), writeUintBE_readUintBE (by omega)]
  have hend : subarray w 44 (44 + maxDescriptorBytes) = w.drop 44 := by
    rw [drop_eq_subarray 44 maxDescriptorBytes, List.drop_eq_nil_of_le (by omega),
      List.append_nil]
  rw [hend, ← drop_eq_subarray 42 2, ← drop_eq_subarray 10 32, ← drop_eq_subarray 9 1,
    ← drop_eq_subarray 1 8, ← drop_eq_subarray 0 1, List.drop_zero]

theorem typeOf_lt (b : Presence.Body) : (typeOf b).toNat < 256 ^ 1 := by
  cases b <;> simp [typeOf]

theorem scopeOf_lt (b : Presence.Body) : (scopeOf b).toNat < 256 ^ 1 := by
  cases b with
  | descriptor _ => simp [scopeOf]
  | tombstone scope _ => cases scope <;> simp [scopeOf]

theorem read_bodyBytes {b : Presence.Body} (h : Valid b) {period : Nat} (hp : period < 2 ^ 64) :
    readUintBE (bodyBytes period b) 0 1 = (typeOf b).toNat ∧
    readUintBE (bodyBytes period b) 1 8 = period ∧
    readUintBE (bodyBytes period b) 9 1 = (scopeOf b).toNat ∧
    subarray (bodyBytes period b) 10 42 = targetOf b ∧
    readUintBE (bodyBytes period b) 42 2 = (dataOf b).length ∧
    subarray (bodyBytes period b) 44 (44 + maxDescriptorBytes) =
      dataOf b ++ zeros (maxDescriptorBytes - (dataOf b).length) := by
  have htarget := h.length_target
  have hdata := h.length_data
  have hmax : maxDescriptorBytes = 814 := rfl
  refine ⟨readUintBE_at (a := []) (n := 1) rfl (typeOf_lt b),
    readUintBE_at (a := [UInt8.ofNat (typeOf b).toNat]) rfl hp, ?_, ?_, ?_, ?_⟩
  · have heq : bodyBytes period b = ([UInt8.ofNat (typeOf b).toNat] ++ writeUintBE 8 period) ++
        (writeUintBE 1 (scopeOf b).toNat ++ (targetOf b ++ (writeUintBE 2 (dataOf b).length ++
          (dataOf b ++ zeros (maxDescriptorBytes - (dataOf b).length))))) := by
      exact (List.append_assoc _ _ _).symm
    rw [heq]
    exact readUintBE_at (by rw [List.length_append, length_writeUintBE]; rfl) (scopeOf_lt b)
  · have heq : bodyBytes period b = ([UInt8.ofNat (typeOf b).toNat] ++ (writeUintBE 8 period ++
        [UInt8.ofNat (scopeOf b).toNat])) ++ (targetOf b ++ (writeUintBE 2 (dataOf b).length ++
          (dataOf b ++ zeros (maxDescriptorBytes - (dataOf b).length)))) := by
      simp only [bodyBytes, List.append_assoc]
    rw [heq]
    exact subarray_at (by simp) (by rw [htarget])
  · have heq : bodyBytes period b = ([UInt8.ofNat (typeOf b).toNat] ++ (writeUintBE 8 period ++
        ([UInt8.ofNat (scopeOf b).toNat] ++ targetOf b))) ++ (writeUintBE 2 (dataOf b).length ++
          (dataOf b ++ zeros (maxDescriptorBytes - (dataOf b).length))) := by
      simp only [bodyBytes, List.append_assoc]
    rw [heq]
    exact readUintBE_at (by simp [htarget]) (by omega)
  · have heq : bodyBytes period b = ([UInt8.ofNat (typeOf b).toNat] ++ (writeUintBE 8 period ++
        ([UInt8.ofNat (scopeOf b).toNat] ++ (targetOf b ++ writeUintBE 2 (dataOf b).length)))) ++
          ((dataOf b ++ zeros (maxDescriptorBytes - (dataOf b).length)) ++ []) := by
      simp only [bodyBytes, List.append_assoc, List.append_nil]
    rw [heq]
    refine subarray_at (by simp [htarget]) ?_
    simp only [List.length_append, length_zeros]
    omega

theorem openBody_of_bytes {b : Presence.Body} (h : Valid b) {period : Nat}
    (hp : period < 2 ^ 64) : openBody period (bodyBytes period b) = .ok b := by
  obtain ⟨htype, hperiod, hscope, htarget, hlength, hregion⟩ := read_bodyBytes h hp
  unfold openBody
  rw [if_neg (by rw [length_bodyBytes h]; simp), if_neg (by rw [hperiod]; simp)]
  simp only [htype, hscope, htarget, hlength, hregion]
  rw [if_neg (Nat.not_lt.mpr h.length_data), List.drop_left' rfl, List.take_left' rfl,
    if_neg (by rw [isAllZero_zeros]; simp)]
  cases b with
  | descriptor bytes =>
    simp [typeOf, scopeOf, targetOf, dataOf, descriptorOf, isAllZero_zeros]
  | tombstone scope target =>
    cases scope with
    | period =>
      have hz : isAllZero target = true := by
        rw [show target = zeros 32 from h, isAllZero_zeros]
      simp [typeOf, scopeOf, targetOf, dataOf, descriptorOf, hz]
    | record =>
      have hz : isAllZero target = false := h.2
      simp [typeOf, scopeOf, targetOf, dataOf, descriptorOf, hz]

/-- The checks of `openBody` on the fields that were read. -/
def openFields (type scope : Nat) (target : Bytes) (length : Nat) (region : Bytes) :
    Except PresenceError Presence.Body :=
  if maxDescriptorBytes < length then .error .invalidDescriptor
  else if !isAllZero (region.drop length) then .error .invalidDescriptor
  else if type = 1 then
    if scope ≠ 0 ∨ isAllZero target = false then .error .invalidDescriptor
    else .ok (.descriptor (region.take length))
  else if type = 2 then
    if length ≠ 0 then .error .invalidDescriptor
    else if scope = 1 then
      if isAllZero target then .ok (.tombstone .period target) else .error .invalidDescriptor
    else if scope = 2 then
      if isAllZero target then .error .invalidDescriptor else .ok (.tombstone .record target)
    else .error .invalidDescriptor
  else .error .invalidDescriptor

theorem openBody_eq (period : Nat) (w : Bytes) : openBody period w =
    if w.length ≠ bodyFixedBytes + maxDescriptorBytes then .error .invalidDescriptor
    else if readUintBE w 1 8 ≠ period then .error .invalidDescriptor
    else openFields (readUintBE w 0 1) (readUintBE w 9 1) (subarray w 10 42) (readUintBE w 42 2)
      (subarray w 44 (44 + maxDescriptorBytes)) := rfl

/-- Fields that pass are those of a valid body. -/
theorem openFields_eq_ok {type scope length : Nat} {target region : Bytes} {b : Presence.Body}
    (ht : target.length = 32) (hr : region.length = maxDescriptorBytes)
    (h : openFields type scope target length region = .ok b) :
    Valid b ∧ (typeOf b).toNat = type ∧ (scopeOf b).toNat = scope ∧ targetOf b = target ∧
      (dataOf b).length = length ∧ region = dataOf b ++ zeros (maxDescriptorBytes - length) := by
  have hzeros : isAllZero target = true → target = zeros 32 := fun hz => ht ▸ eq_zeros hz
  unfold openFields at h
  split at h
  · cases h
  · next hle =>
    have hle := Nat.not_lt.mp hle
    split at h
    · cases h
    · next hpad =>
      have hdrop := eq_zeros (b := region.drop length) (by simpa using hpad)
      rw [List.length_drop, hr] at hdrop
      have hregion : region = region.take length ++ zeros (maxDescriptorBytes - length) := by
        rw [← hdrop, List.take_append_drop]
      have htake : (region.take length).length = length := by
        rw [List.length_take, hr]
        omega
      split at h
      · next htype =>
        split at h
        · cases h
        · next hrules =>
          cases h
          rw [not_or, not_not, Bool.not_eq_false] at hrules
          exact ⟨htake.trans_le hle, htype.symm, hrules.1.symm, (hzeros hrules.2).symm, htake,
            hregion⟩
      · split at h
        · next htype =>
          split at h
          · cases h
          · next hnone =>
            obtain rfl := not_not.mp hnone
            split at h
            · next hscope =>
              split at h
              · next hz =>
                cases h
                exact ⟨hzeros hz, htype.symm, hscope.symm, rfl, rfl, hregion⟩
              · cases h
            · split at h
              · next hscope =>
                split at h
                · cases h
                · next hz =>
                  cases h
                  exact ⟨⟨ht, by simpa using hz⟩, htype.symm, hscope.symm, rfl, rfl, hregion⟩
              · cases h
        · cases h

theorem openBody_eq_ok {period : Nat} {w : Bytes} {b : Presence.Body}
    (h : openBody period w = .ok b) : Valid b ∧ w = bodyBytes period b := by
  rw [openBody_eq] at h
  split at h
  · cases h
  · next hlen =>
    have hlen := not_not.mp hlen
    have hfixed : bodyFixedBytes = 44 := rfl
    split at h
    · cases h
    · next hperiod =>
      obtain ⟨hvalid, htype, hscope, htarget, hlength, hregion⟩ :=
        openFields_eq_ok (length_subarray (i := 10) (n := 32) (by omega))
          (length_subarray (by omega)) h
      have hfields := body_eq_fields hlen
      rw [← htype, not_not.mp hperiod, ← hscope, ← htarget, hregion, ← hlength] at hfields
      exact ⟨hvalid, hfields⟩

end HyperDht.Private.PresenceRecord
