import HyperDht.Private.PresenceRecord

/-!
# Opening what was sealed

A record that was encoded and signed opens to what it was made of, a body that opens is the
one `encodeBody` makes of it, and a value that opens does so under one period, revision,
identity and reader secret only. The hash, the AEAD and the blinded keys are those of the
`Suite`; `Signer.Correct` and `Bound` say what is asked of them.
-/

namespace HyperDht.Private.PresenceRecord

open Presence CompactEncoding

theorem bind_eq_ok {ε α β : Type} {x : Except ε α} {f : α → Except ε β} {b : β}
    (h : x >>= f = .ok b) : ∃ a, x = .ok a ∧ f a = .ok b := by
  cases x with
  | error e => cases h
  | ok a => exact ⟨a, rfl, h⟩

/-! ## The content of the options -/

/-- The body is made of the options: the descriptor, or the scope with its target. -/
def Options.Encodes (o : Options) : Presence.Body → Prop
  | .descriptor bytes => o.type = 1 ∧ o.descriptor = some bytes
  | .tombstone .record target =>
    o.type = 2 ∧ ∃ t, o.tombstone = some t ∧ t.scope = 2 ∧ t.target = some target
  | .tombstone .period target =>
    o.type = 2 ∧ ∃ t, o.tombstone = some t ∧ t.scope = 1 ∧ target = zeros 32

theorem isRecordTombstoneTarget_eq_true {value : Option Bytes}
    (h : isRecordTombstoneTarget value = true) :
    ∃ target, value = some target ∧ target.length = 32 ∧ isAllZero target = false := by
  cases value with
  | none => cases h
  | some target =>
    refine ⟨target, rfl, ?_⟩
    simpa [isRecordTombstoneTarget] using h

theorem fields_eq_ok {o : Options} {scope : Int} {target : Bytes} {descriptor : Option Bytes}
    (h : o.fields = .ok (scope, target, descriptor)) :
    ∃ b, Valid b ∧ o.Encodes b ∧ typeOf b = o.type ∧ scopeOf b = scope ∧ targetOf b = target ∧
      descriptorOf b = descriptor := by
  unfold Options.fields at h
  split at h
  · next htype =>
    split at h
    · cases h
    · next bytes hbytes =>
      split at h
      · cases h
      · next hle =>
        cases h
        exact ⟨.descriptor bytes, Nat.not_lt.mp hle, ⟨htype, hbytes⟩, htype.symm, rfl, rfl, rfl⟩
  · split at h
    · next htype =>
      split at h
      · cases h
      · next t ht =>
        split at h
        · next hscope =>
          split at h
          · cases h
          · next hrecord =>
            obtain ⟨target, htarget, hvalid⟩ :=
              isRecordTombstoneTarget_eq_true (by simpa using hrecord)
            rw [htarget] at h
            cases h
            exact ⟨.tombstone .record target, hvalid, ⟨htype, t, ht, hscope, htarget⟩, htype.symm,
              rfl, rfl, rfl⟩
        · split at h
          · next hscope =>
            cases h
            exact ⟨.tombstone .period (zeros 32), rfl, ⟨htype, t, ht, hscope, rfl⟩, htype.symm,
              rfl, rfl, rfl⟩
          · cases h
    · cases h

/-! ## The value -/

def valueBytes (revision : Nat) (noncePrefix ciphertext : Bytes) : Bytes :=
  [recordVersion] ++ (writeUintBE 4 revision ++ (noncePrefix ++ ciphertext))

theorem writeValue_eq {revision : Int} {noncePrefix ciphertext : Bytes}
    (hn : noncePrefix.length = 16)
    (hc : ciphertext.length = bodyFixedBytes + maxDescriptorBytes + aeadTagBytes) :
    writeValue revision noncePrefix ciphertext =
      .ok (valueBytes revision.toNat noncePrefix ciphertext) := by
  have hlen : ciphertext.length = 874 := hc
  have h0 : (zeros recordSize).set 0 recordVersion = [recordVersion] ++ zeros 894 :=
    set_zeros (w := []) rfl recordVersion
  unfold writeValue
  rw [if_neg (not_not.mpr hc), h0]
  dsimp only
  rw [write_next (w := [recordVersion]) (i := 1) rfl (by simp), length_writeUintBE, drop_zeros]
  show (write _ noncePrefix 5 >>= fun value => write value ciphertext headerBytes) = _
  rw [write_next (by simp) (by simp [hn]), drop_zeros, hn]
  show write _ ciphertext headerBytes = _
  rw [write_next (by simp [hn, headerBytes]) (by simp [hlen]), drop_zeros, hlen]
  simp [valueBytes, zeros]

theorem read_valueBytes {revision : Nat} {noncePrefix : Bytes} (ciphertext : Bytes)
    (hn : noncePrefix.length = 16) (hr : revision < 2 ^ 32) :
    (valueBytes revision noncePrefix ciphertext)[0]? = some recordVersion ∧
    readUintBE (valueBytes revision noncePrefix ciphertext) 1 4 = revision ∧
    subarray (valueBytes revision noncePrefix ciphertext) 5 21 = noncePrefix ∧
    (valueBytes revision noncePrefix ciphertext).drop headerBytes = ciphertext := by
  refine ⟨rfl, readUintBE_at (a := [recordVersion]) rfl hr, ?_, ?_⟩
  · have heq : valueBytes revision noncePrefix ciphertext =
        ([recordVersion] ++ writeUintBE 4 revision) ++ (noncePrefix ++ ciphertext) := by
      simp [valueBytes]
    rw [heq]
    exact subarray_at (by simp) (by rw [hn])
  · have heq : valueBytes revision noncePrefix ciphertext =
        ([recordVersion] ++ (writeUintBE 4 revision ++ noncePrefix)) ++ ciphertext := by
      simp [valueBytes]
    rw [heq]
    exact List.drop_left' (by simp [hn, headerBytes])

theorem suiteSeal_eq_some {a : Aead} (ha : a.Lawful) {alloc : Nat → Bytes}
    {key noncePrefix data m c : Bytes} {counter : Nat}
    (h : suiteSeal a alloc key noncePrefix counter data m = some c) :
    c.length = m.length + aeadTagBytes ∧
      suiteOpen a alloc key noncePrefix counter data c = some m := by
  unfold suiteSeal at h
  split at h
  · cases h
  · next hkey =>
    split at h
    · cases h
    · next hdata =>
      split at h
      · cases h
      · next hm =>
        obtain ⟨nonce, hnonce, rfl⟩ := Option.map_eq_some_iff.mp h
        refine ⟨ha.length m data nonce key, ?_⟩
        unfold suiteOpen
        rw [if_neg hkey, if_neg hdata, if_neg (by rw [ha.length]; omega), hnonce, Option.bind_some,
          ha.opens]

/-! ## Encoding and signing -/

def readerKey (s : Suite) (readerSecret publicKey : Bytes) (period : Nat) : Fixed 32 :=
  s.hash (readerInput readerSecret publicKey period)

theorem deriveReaderKey_eq_ok {s : Suite} {readerSecret publicKey key : Bytes} {period : Int}
    (h : deriveReaderKey s readerSecret publicKey period = .ok key) :
    key = (readerKey s readerSecret publicKey period.toNat).val := by
  unfold deriveReaderKey at h
  split at h
  · cases h
  · split at h
    · cases h
    · split at h
      · cases h
      · exact (Except.ok.inj h).symm

theorem deriveReaderKey_eq {s : Suite} {readerSecret publicKey : Bytes} {period : Int}
    (hr : readerSecret.length = 32) (hk : publicKey.length = 32) (hp : uint64 period = true) :
    deriveReaderKey s readerSecret publicKey period =
      .ok (readerKey s readerSecret publicKey period.toNat).val := by
  unfold deriveReaderKey
  rw [if_neg (not_not.mpr hr), if_neg (not_not.mpr hk), if_neg (by rw [hp]; simp)]
  rfl

structure Encoded (s : Suite) (noncePrefix : Fixed 16) (o : Options) (record : Record)
    (b : Presence.Body) (ciphertext : Bytes) : Prop where
  publicKey : o.signer.publicKey.length = 32
  period : uint64 o.period = true
  revision : isUint32 o.revision = true
  readerSecret : o.readerSecret.length = 32
  valid : Valid b
  content : o.Encodes b
  sealing : suiteSeal s.aead s.alloc
    (readerKey s o.readerSecret o.signer.publicKey o.period.toNat).val noncePrefix.val 0
    (buildAssociatedData o.signer.publicKey recordVersion o.period.toNat o.revision.toNat)
    (bodyBytes o.period.toNat b) = some ciphertext
  record : record =
    ⟨o.signer.publicKey, o.revision, valueBytes o.revision.toNat noncePrefix.val ciphertext⟩

theorem check_eq_ok {o : Options} (h : o.check = .ok ()) : o.signer.publicKey.length = 32 ∧
    uint64 o.period = true ∧ isUint32 o.revision = true ∧ o.readerSecret.length = 32 := by
  unfold Options.check at h
  split at h
  · cases h
  · next hk =>
    split at h
    · cases h
    · next hp =>
      split at h
      · cases h
      · next hr =>
        split at h
        · cases h
        · next hs => exact ⟨not_not.mp hk, by simpa using hp, by simpa using hr, not_not.mp hs⟩

theorem encodePresenceRecord_eq_ok {s : Suite} (ha : s.aead.Lawful) {noncePrefix : Fixed 16}
    {o : Options} {record : Record} (h : encodePresenceRecord s noncePrefix o = .ok record) :
    ∃ b ciphertext, Encoded s noncePrefix o record b ciphertext := by
  obtain ⟨⟨⟩, hcheck, h⟩ := bind_eq_ok h
  obtain ⟨hk, hp, hr, hs⟩ := check_eq_ok hcheck
  obtain ⟨⟨scope, target, descriptor⟩, hfields, h⟩ := bind_eq_ok h
  obtain ⟨b, hvalid, hcontent, htype, rfl, rfl, rfl⟩ := fields_eq_ok hfields
  obtain ⟨body, hbody, h⟩ := bind_eq_ok h
  rw [← htype, encodeBody_of_valid hvalid hp] at hbody
  obtain rfl := Except.ok.inj hbody
  obtain ⟨key, hkey, h⟩ := bind_eq_ok h
  obtain rfl := deriveReaderKey_eq_ok hkey
  dsimp only at h
  split at h
  · cases h
  · next ciphertext hseal =>
    obtain ⟨value, hvalue, h⟩ := bind_eq_ok h
    obtain ⟨hlen, -⟩ := suiteSeal_eq_some ha hseal
    rw [length_bodyBytes hvalid] at hlen
    rw [writeValue_eq noncePrefix.property hlen] at hvalue
    obtain rfl := Except.ok.inj hvalue
    exact ⟨b, ciphertext, hk, hp, hr, hs, hvalid, hcontent, hseal, (Except.ok.inj h).symm⟩

/-- The signer holds the key its signatures verify under. -/
structure Signer.Correct (s : Suite) (signer : Signer) (publicKey : Fixed 32) : Prop where
  key : signer.publicKey = publicKey.val
  verifies : ∀ message signature, signer.sign message = some signature →
    s.mutables.verify signature message publicKey = true

theorem mutableSignable_eq {revision : Int} {value : Bytes} (hr : isUint32 revision = true)
    (hv : value.length = recordSize) : ∃ m v, mutableSignable revision value = some m ∧
      m.value = some v ∧ v.val = value := by
  have hrev : revision.toNat < 2 ^ 53 + 1 := by
    simp only [isUint32, Bool.and_eq_true, decide_eq_true_eq] at hr
    omega
  have hval : value.length < 2 ^ 53 + 1 := by
    rw [hv]
    decide
  exact ⟨_, ⟨value, hval⟩, dif_pos ⟨hrev, hval⟩, rfl, rfl⟩

def messageOf (s : Suite) (m : Mutables.MutableSignable) : Bytes :=
  s.mutables.mutablePut.val ++
    (s.mutables.hash (uintBytes m.seq.val ++ bufferBytes m.value)).val

theorem run_mutableSignable (s : Suite) (m : Mutables.MutableSignable) :
    Mutables.mutableSignable.run s.mutables.alloc m =
      some (uintBytes m.seq.val ++ bufferBytes m.value) :=
  Mutables.run_mutableSignable s.mutables.alloc m

/-- A signature of `signMutable` is one of the signer over the record. -/
theorem signMutable_eq_ok {s : Suite} {signer : Signer} {record : Record} {seq : Int}
    {recordValue : Bytes} {publicKey : Option Bytes} {signature : Fixed 64}
    {m : Mutables.MutableSignable} (hm : mutableSignable record.seq record.value = some m)
    (h : signMutable s signer record seq recordValue publicKey = .ok signature) :
    signer.sign (messageOf s m) = some signature := by
  unfold signMutable at h
  rw [hm, Option.bind_some, run_mutableSignable] at h
  split at h
  · cases h
  · split at h
    · cases h
    · split at h
      · cases h
      · split at h
        · cases h
        · dsimp only at h
          split at h
          · cases h
          · next hsign =>
            cases h
            exact hsign

/-- The record's own number, value and key are signed where the signer signs. -/
theorem signMutable_eq {s : Suite} {signer : Signer} {record : Record} {signature : Fixed 64}
    {m : Mutables.MutableSignable} (hm : mutableSignable record.seq record.value = some m)
    (hlen : record.value.length = recordSize)
    (hsign : signer.sign (messageOf s m) = some signature) :
    signMutable s signer record record.seq record.value (some record.publicKey) =
      .ok signature := by
  unfold signMutable
  rw [if_neg (not_not.mpr rfl), if_neg (not_not.mpr rfl), if_neg (not_not.mpr hlen),
    if_neg (not_not.mpr rfl), hm, Option.bind_some, run_mutableSignable]
  dsimp only
  rw [show s.mutables.mutablePut.val ++ _ = messageOf s m from rfl, hsign]

theorem verifyMutable_of_signed {s : Suite} {signature : Fixed 64} {revision : Int}
    {value : Bytes} {publicKey : Fixed 32} {m : Mutables.MutableSignable} {v : Buffer}
    (hm : mutableSignable revision value = some m) (hv : m.value = some v) :
    verifyMutable s signature revision value publicKey =
      some (s.mutables.verify signature (messageOf s m) publicKey) := by
  unfold verifyMutable
  rw [hm]
  simp only [Option.bind_eq_bind, Option.bind_some, hv, Mutables.verifyMutable_eq]
  rw [messageOf, hv]
  rfl

/-! ## Opening -/

structure Opens (s : Suite) (o : OpenOptions) (publicKey : Fixed 32) (plaintext : Bytes) : Prop where
  check : o.check = .ok ()
  signature : o.signature.length = 64
  derived : s.deriveBlindedPublicKey o.identityPublicKey o.period.toNat = some publicKey
  version : o.value[0]? = some recordVersion
  header : (readUintBE o.value 1 4 : Int) = o.revision
  signed : verifyMutable s ⟨o.signature, signature⟩ o.revision o.value publicKey = some true
  opened : suiteOpen s.aead s.alloc (readerKey s o.readerSecret publicKey.val o.period.toNat).val
    (subarray o.value 5 21) 0
    (buildAssociatedData publicKey.val recordVersion o.period.toNat o.revision.toNat)
    (o.value.drop headerBytes) = some plaintext

structure OpenOptions.Checked (o : OpenOptions) : Prop where
  identityPublicKey : o.identityPublicKey.length = 32
  period : uint64 o.period = true
  revision : isUint32 o.revision = true
  readerSecret : o.readerSecret.length = 32
  value : o.value.length = recordSize

theorem OpenOptions.check_eq_ok_iff {o : OpenOptions} : o.check = .ok () ↔ o.Checked := by
  constructor
  · intro h
    unfold OpenOptions.check at h
    split at h
    · cases h
    · next hi =>
      split at h
      · cases h
      · next hp =>
        split at h
        · cases h
        · next hr =>
          split at h
          · cases h
          · next hs =>
            split at h
            · cases h
            · next hv =>
              exact ⟨not_not.mp hi, by simpa using hp, by simpa using hr, not_not.mp hs,
                not_not.mp hv⟩
  · rintro ⟨hi, hp, hr, hs, hv⟩
    unfold OpenOptions.check
    rw [if_neg (not_not.mpr hi), if_neg (by rw [hp]; simp), if_neg (by rw [hr]; simp),
      if_neg (not_not.mpr hs), if_neg (not_not.mpr hv)]

theorem openPlaintext_eq_ok_iff {s : Suite} {o : OpenOptions} {plaintext : Bytes} :
    openPlaintext s o = .ok plaintext ↔ ∃ publicKey, Opens s o publicKey plaintext := by
  constructor
  · intro h
    obtain ⟨⟨⟩, hcheck, h⟩ := bind_eq_ok h
    split at h
    · next hlen =>
      split at h
      · cases h
      · next publicKey hderived =>
        unfold openValue at h
        split at h
        · cases h
        · next hversion =>
          split at h
          · cases h
          · next hheader =>
            split at h
            · cases h
            · next hsigned =>
              obtain ⟨key, hkey, h⟩ := bind_eq_ok h
              obtain rfl := deriveReaderKey_eq_ok hkey
              dsimp only at h
              split at h
              · cases h
              · next hopened =>
                cases h
                exact ⟨publicKey, hcheck, hlen, hderived, not_not.mp hversion,
                  not_not.mp hheader, not_not.mp hsigned, hopened⟩
    · cases h
  · rintro ⟨publicKey, hcheck, hlen, hderived, hversion, hheader, hsigned, hopened⟩
    have hc := OpenOptions.check_eq_ok_iff.mp hcheck
    have hkey := deriveReaderKey_eq (s := s) hc.readerSecret publicKey.property hc.period
    unfold openPlaintext
    rw [hcheck]
    show (if h : o.signature.length = 64 then _ else _) = _
    rw [dif_pos hlen, hderived]
    show openValue s o _ publicKey = _
    unfold openValue
    rw [if_neg (not_not.mpr hversion), if_neg (not_not.mpr hheader), if_neg (not_not.mpr hsigned),
      hkey]
    dsimp only [bind, Except.bind]
    rw [hopened]

theorem openPresenceRecord_eq_ok {s : Suite} {o : OpenOptions} {r : OpenedRecord}
    (h : openPresenceRecord s o = .ok r) : ∃ publicKey plaintext, Opens s o publicKey plaintext ∧
      openPlaintext s o = .ok plaintext ∧ r.period = o.period ∧ r.revision = o.revision ∧
      openBody o.period.toNat plaintext = .ok r.body := by
  obtain ⟨plaintext, hplain, h⟩ := bind_eq_ok h
  obtain ⟨publicKey, hopens⟩ := openPlaintext_eq_ok_iff.mp hplain
  split at h
  · cases h
  · next hbody =>
    cases h
    exact ⟨publicKey, plaintext, hopens, hplain, rfl, rfl, hbody⟩

/-- A value opens under no other reader key, its reader key comes from no other input, and its
public key from no other identity. -/
structure Bound (s : Suite) (o : OpenOptions) (publicKey : Fixed 32) : Prop where
  aead : ∀ key associatedData plaintext,
    suiteOpen s.aead s.alloc key (subarray o.value 5 21) 0 associatedData
      (o.value.drop headerBytes) = some plaintext →
    key = (readerKey s o.readerSecret publicKey.val o.period.toNat).val
  hash : ∀ input, s.hash input = readerKey s o.readerSecret publicKey.val o.period.toNat →
    input = readerInput o.readerSecret publicKey.val o.period.toNat
  blinding : ∀ identityPublicKey,
    s.deriveBlindedPublicKey identityPublicKey o.period.toNat = some publicKey →
    identityPublicKey = o.identityPublicKey

theorem readerInput_inj {readerSecret readerSecret' publicKey publicKey' : Bytes}
    {period period' : Nat} (hs : readerSecret.length = 32) (hs' : readerSecret'.length = 32)
    (hk : publicKey.length = 32) (hk' : publicKey'.length = 32) (hp : period < 2 ^ 64)
    (hp' : period' < 2 ^ 64)
    (h : readerInput readerSecret publicKey period = readerInput readerSecret' publicKey' period') :
    readerSecret = readerSecret' ∧ publicKey = publicKey' ∧ period = period' := by
  obtain ⟨hsecret, h⟩ := List.append_inj (List.append_cancel_left h) (hs.trans hs'.symm)
  obtain ⟨hkey, h⟩ := List.append_inj h (hk.trans hk'.symm)
  refine ⟨hsecret, hkey, ?_⟩
  have hread := congrArg (fun b => readUintBE ([] ++ (b ++ [])) 0 8) h
  exact (readUintBE_at (a := []) rfl hp).symm.trans
    (hread.trans (readUintBE_at (a := []) rfl hp'))

theorem toNat_lt_of_uint64 {period : Int} (h : uint64 period = true) :
    period.toNat < 2 ^ 64 ∧ (period.toNat : Int) = period := by
  simp only [uint64, Bool.and_eq_true, decide_eq_true_eq] at h
  omega

/-- A bound value opens under one period, revision, identity and reader secret. -/
theorem Opens.unique {s : Suite} {o o' : OpenOptions} {publicKey publicKey' : Fixed 32}
    {plaintext plaintext' : Bytes} (h : Opens s o publicKey plaintext)
    (hb : Bound s o publicKey) (hv : o'.value = o.value)
    (h' : Opens s o' publicKey' plaintext') : o'.period = o.period ∧ o'.revision = o.revision ∧
      o'.identityPublicKey = o.identityPublicKey ∧ o'.readerSecret = o.readerSecret := by
  have hc := OpenOptions.check_eq_ok_iff.mp h.check
  have hc' := OpenOptions.check_eq_ok_iff.mp h'.check
  obtain ⟨hlt, hp⟩ := toNat_lt_of_uint64 hc.period
  obtain ⟨hlt', hp'⟩ := toNat_lt_of_uint64 hc'.period
  have hrevision : o'.revision = o.revision := by
    rw [← h'.header, ← h.header, hv]
  have hopened := h'.opened
  rw [hv] at hopened
  have hkeys := hb.aead _ _ _ hopened
  have hinputs := hb.hash _ (Subtype.ext hkeys)
  obtain ⟨hsecret, hkey, hperiod⟩ := readerInput_inj hc'.readerSecret hc.readerSecret
    publicKey'.property publicKey.property hlt' hlt hinputs
  have hidentity : o'.identityPublicKey = o.identityPublicKey := by
    refine hb.blinding _ ?_
    rw [← hperiod, h'.derived, Subtype.ext hkey]
  refine ⟨?_, hrevision, hidentity, hsecret⟩
  rw [← hp', ← hp, hperiod]

/-! ## Records -/

variable {s : Suite}

theorem Encoded.value_length {noncePrefix : Fixed 16} {o : Options} {record : Record}
    {b : Presence.Body} {ciphertext : Bytes} (ha : s.aead.Lawful)
    (h : Encoded s noncePrefix o record b ciphertext) : record.value.length = recordSize := by
  obtain ⟨hlen, -⟩ := suiteSeal_eq_some ha h.sealing
  rw [length_bodyBytes h.valid] at hlen
  have hn := noncePrefix.property
  rw [h.record]
  simp [valueBytes, hlen, hn]
  rfl

def matching (o : Options) (identityPublicKey : Fixed 32) (value : Bytes) (signature : Fixed 64) :
    OpenOptions :=
  ⟨identityPublicKey.val, o.period, o.revision, o.readerSecret, value, signature.val⟩

/-- A signed record opens with the options it matches, to what was sealed. -/
theorem Encoded.opens {noncePrefix : Fixed 16} {o : Options} {record : Record}
    {b : Presence.Body} {ciphertext : Bytes} (ha : s.aead.Lawful)
    (h : Encoded s noncePrefix o record b ciphertext) {publicKey identityPublicKey : Fixed 32}
    (hc : o.signer.Correct s publicKey)
    (hd : s.deriveBlindedPublicKey identityPublicKey.val o.period.toNat = some publicKey)
    {m : Mutables.MutableSignable} {v : Buffer} {signature : Fixed 64}
    (hm : mutableSignable record.seq record.value = some m) (hv : m.value = some v)
    (hsign : o.signer.sign (messageOf s m) = some signature) :
    Opens s (matching o identityPublicKey record.value signature) publicKey
      (bodyBytes o.period.toNat b) := by
  have hlen := h.value_length ha
  obtain ⟨-, hopen⟩ := suiteSeal_eq_some ha h.sealing
  have hverify := hc.verifies _ _ hsign
  have hlt : o.revision.toNat < 2 ^ 32 ∧ (o.revision.toNat : Int) = o.revision := by
    have hr := h.revision
    simp only [isUint32, Bool.and_eq_true, decide_eq_true_eq] at hr
    omega
  obtain ⟨hversion, hheader, hnonce, hcipher⟩ :=
    read_valueBytes ciphertext noncePrefix.property hlt.1
  have hrecord := h.record
  have hvalue : record.value = valueBytes o.revision.toNat noncePrefix.val ciphertext := by
    rw [hrecord]
  have hseq : record.seq = o.revision := by
    rw [hrecord]
  rw [hc.key] at hopen
  refine ⟨OpenOptions.check_eq_ok_iff.mpr ⟨identityPublicKey.property, h.period, h.revision,
    h.readerSecret, hlen⟩, signature.property, hd, ?_, ?_, ?_, ?_⟩
  · show record.value[0]? = _
    rw [hvalue, hversion]
  · show (readUintBE record.value 1 4 : Int) = o.revision
    rw [hvalue, hheader, hlt.2]
  · show verifyMutable s signature o.revision record.value publicKey = some true
    rw [← hseq, verifyMutable_of_signed hm hv, hverify]
  · show suiteOpen _ _ _ (subarray record.value 5 21) 0 _ (record.value.drop headerBytes) = _
    rw [hvalue, hnonce, hcipher]
    exact hopen

theorem openPresenceRecord_of_plaintext {o : OpenOptions} {plaintext : Bytes} {b : Presence.Body}
    (h : openPlaintext s o = .ok plaintext) (hb : openBody o.period.toNat plaintext = .ok b) :
    openPresenceRecord s o = .ok ⟨o.period, o.revision, b⟩ := by
  unfold openPresenceRecord
  rw [h]
  dsimp only [bind, Except.bind]
  rw [hb]

theorem openPresenceRecord_of_opens {o : OpenOptions} {publicKey : Fixed 32} {b : Presence.Body}
    (h : Opens s o publicKey (bodyBytes o.period.toNat b)) (hb : Valid b) :
    openPresenceRecord s o = .ok ⟨o.period, o.revision, b⟩ := by
  have hc := OpenOptions.check_eq_ok_iff.mp h.check
  exact openPresenceRecord_of_plaintext (openPlaintext_eq_ok_iff.mpr ⟨publicKey, h⟩)
    (openBody_of_bytes hb (toNat_lt_of_uint64 hc.period).1)

/-- Presence records round trip, are canonical, and open with what they were sealed for only. -/
theorem presence_records (ha : s.aead.Lawful) :
    (∀ noncePrefix o record, encodePresenceRecord s noncePrefix o = .ok record →
      ∀ publicKey identityPublicKey, o.signer.Correct s publicKey →
      s.deriveBlindedPublicKey identityPublicKey.val o.period.toNat = some publicKey →
      ∃ b, o.Encodes b ∧
        ((∀ message, (o.signer.sign message).isSome) → ∃ signature,
          signMutable s o.signer record record.seq record.value (some record.publicKey) =
            .ok signature) ∧
        ∀ seq value publicKey signature,
          signMutable s o.signer record seq value publicKey = .ok signature →
          openPresenceRecord s (matching o identityPublicKey record.value signature) =
            .ok ⟨o.period, o.revision, b⟩) ∧
    (∀ o r, openPresenceRecord s o = .ok r → ∃ plaintext, openPlaintext s o = .ok plaintext ∧
      encodeBody (typeOf r.body) r.period (scopeOf r.body) (targetOf r.body)
        (descriptorOf r.body) = .ok plaintext) ∧
    (∀ o r publicKey, openPresenceRecord s o = .ok r →
      s.deriveBlindedPublicKey o.identityPublicKey o.period.toNat = some publicKey →
      Bound s o publicKey → ∀ o', o'.value = o.value →
      o'.period ≠ o.period ∨ o'.revision ≠ o.revision ∨
        o'.identityPublicKey ≠ o.identityPublicKey ∨ o'.readerSecret ≠ o.readerSecret →
      ∃ e, openPresenceRecord s o' = .error e) := by
  refine ⟨?_, ?_, ?_⟩
  · intro noncePrefix o record h publicKey identityPublicKey hc hd
    obtain ⟨b, ciphertext, he⟩ := encodePresenceRecord_eq_ok ha h
    have hlen := he.value_length ha
    have hrev : isUint32 record.seq = true := by
      rw [he.record]
      exact he.revision
    obtain ⟨m, v, hm, hv, -⟩ := mutableSignable_eq hrev hlen
    refine ⟨b, he.content, fun hlive => ?_, fun seq value publicKey' signature hsign => ?_⟩
    · obtain ⟨signature, hsign⟩ := Option.isSome_iff_exists.mp (hlive (messageOf s m))
      exact ⟨signature, signMutable_eq hm hlen hsign⟩
    · exact openPresenceRecord_of_opens
        (he.opens ha hc hd hm hv (signMutable_eq_ok hm hsign)) he.valid
  · intro o r h
    obtain ⟨publicKey, plaintext, hopens, hplain, hperiod, -, hbody⟩ := openPresenceRecord_eq_ok h
    have hc := OpenOptions.check_eq_ok_iff.mp hopens.check
    obtain ⟨hvalid, hbytes⟩ := openBody_eq_ok hbody
    refine ⟨plaintext, hplain, ?_⟩
    rw [hperiod, hbytes]
    exact encodeBody_of_valid hvalid hc.period
  · intro o r publicKey h hd hb o' hvalue hne
    obtain ⟨publicKey', plaintext, hopens, -, -, -, -⟩ := openPresenceRecord_eq_ok h
    obtain rfl := Option.some.inj (hd.symm.trans hopens.derived)
    cases h' : openPresenceRecord s o' with
    | error e => exact ⟨e, rfl⟩
    | ok r' =>
      obtain ⟨publicKey'', plaintext', hopens', -, -, -, -⟩ := openPresenceRecord_eq_ok h'
      obtain ⟨hp, hr, hi, hs⟩ := hopens.unique hb hvalue hopens'
      tauto

/-! ## The reader's suite -/

/-- Signature check and decryption of one identity and reader as the primitive of a
`PresenceSuite`, for a value with this signature. -/
def presenceSuite (s : Suite) (identityPublicKey readerSecret : Bytes) (signature : Fixed 64) :
    PresenceSuite where
  hash value := (s.hash value).val
  hash_length value := (s.hash value).property
  decrypt period revision value :=
    (openPlaintext s
      ⟨identityPublicKey, period, revision, readerSecret, value, signature.val⟩).toOption

/-- What opens here is what opens with the reader's suite, so the states resolved from such
records converge. -/
theorem openPresenceRecord_iff {identityPublicKey readerSecret value : Bytes}
    {signature : Fixed 64} {period revision : Nat} {b : Presence.Body} :
    openPresenceRecord s
        ⟨identityPublicKey, period, revision, readerSecret, value, signature.val⟩ =
      .ok ⟨period, revision, b⟩ ↔
    Presence.openPresenceRecord (presenceSuite s identityPublicKey readerSecret signature) period
      revision value = .ok b := by
  constructor
  · intro h
    obtain ⟨publicKey, plaintext, hopens, hplain, -, -, hbody⟩ := openPresenceRecord_eq_ok h
    have hc := OpenOptions.check_eq_ok_iff.mp hopens.check
    have hp : uint64 period = true := decide_eq_true (toNat_lt_of_uint64 hc.period).1
    have hr : isUint32 revision = true := by
      have := hc.revision
      simp only [isUint32, Bool.and_eq_true, decide_eq_true_eq] at this
      exact decide_eq_true (by omega)
    have hheader : readUintBE value 1 4 = revision := Int.ofNat_inj.mp hopens.header
    unfold Presence.openPresenceRecord
    rw [if_neg (by simp [hp]), if_neg (by simp [hr]), if_neg (not_not.mpr hc.value),
      if_neg (not_not.mpr hopens.version), if_neg (not_not.mpr hheader),
      show (presenceSuite _ _ _ _).decrypt period revision value = some plaintext by
        show Except.toOption _ = _
        rw [hplain]
        rfl]
    exact hbody
  · intro h
    unfold Presence.openPresenceRecord at h
    split at h
    · cases h
    · split at h
      · cases h
      · split at h
        · cases h
        · split at h
          · cases h
          · split at h
            · cases h
            · split at h
              · cases h
              · next plaintext hdecrypt =>
                have hplain : openPlaintext s ⟨identityPublicKey, period, revision, readerSecret,
                    value, signature.val⟩ = .ok plaintext := by
                  change Except.toOption _ = _ at hdecrypt
                  cases hopen : openPlaintext s ⟨identityPublicKey, period, revision, readerSecret,
                      value, signature.val⟩ with
                  | error e =>
                    rw [hopen] at hdecrypt
                    cases hdecrypt
                  | ok w =>
                    rw [hopen] at hdecrypt
                    rw [Option.some.inj hdecrypt]
                exact openPresenceRecord_of_plaintext hplain h

/-! ## A sample -/

/-- A stand-in for the AEAD: the tag tells the key of zeros from the others. -/
def tagOf (key : Bytes) : Bytes :=
  if key = zeros 32 then zeros 16 else List.replicate 16 1

def taggedAead : Aead where
  encrypt m _ _ key := m ++ tagOf key
  decrypt c _ _ key :=
    if c.drop (c.length - 16) = tagOf key then some (c.take (c.length - 16)) else none

theorem length_tagOf (key : Bytes) : (tagOf key).length = 16 := by
  unfold tagOf
  split
  · exact length_zeros 16
  · exact List.length_replicate

theorem taggedAead_lawful : taggedAead.Lawful := by
  refine ⟨fun m _ _ key => ?_, fun m _ _ key => ?_, fun c _ _ key m h => ?_⟩
  · show (m ++ tagOf key).length = _
    rw [List.length_append, length_tagOf]
    rfl
  · have hlen : (m ++ tagOf key).length - 16 = m.length := by
      rw [List.length_append, length_tagOf, Nat.add_sub_cancel]
    unfold taggedAead
    dsimp only
    rw [hlen, List.drop_left, List.take_left, if_pos rfl]
  · unfold taggedAead at h ⊢
    dsimp only at h ⊢
    split at h
    · next hc =>
      rw [← Option.some.inj h, ← hc, List.take_append_drop]
    · cases h

def zeroKey : Fixed 32 := ⟨zeros 32, rfl⟩

/-- Keys are not blinded, and only the reader key of the sample is zero. -/
def sampleSuite : Suite where
  mutables := ⟨fun _ => zeroKey, fun _ _ _ => true, zeroKey, fun n => ⟨zeros n, length_zeros n⟩⟩
  hash input :=
    if input = readerInput (zeros 32) (zeros 32) 5 then zeroKey
    else ⟨List.replicate 32 1, rfl⟩
  aead := taggedAead
  deriveBlindedPublicKey identity _ := if h : identity.length = 32 then some ⟨identity, h⟩ else none
  alloc := zeros

def sampleOptions : Options where
  signer := ⟨zeros 32, fun _ => some ⟨zeros 64, rfl⟩⟩
  period := 5
  revision := 3
  readerSecret := zeros 32
  type := 1
  descriptor := some [1, 2, 3]
  tombstone := none

theorem tagOf_inj_zeros {key : Bytes} (h : tagOf key = tagOf (zeros 32)) : key = zeros 32 := by
  by_contra hne
  rw [tagOf, tagOf, if_neg hne, if_pos rfl] at h
  exact absurd h (by decide)

theorem taggedAead_tag {alloc : Nat → Bytes} {key noncePrefix data c m : Bytes} {counter : Nat}
    (h : suiteOpen taggedAead alloc key noncePrefix counter data c = some m) :
    c.drop (c.length - 16) = tagOf key := by
  unfold suiteOpen at h
  split at h
  · cases h
  · split at h
    · cases h
    · split at h
      · cases h
      · obtain ⟨nonce, -, h⟩ := Option.bind_eq_some_iff.mp h
        unfold taggedAead at h
        dsimp only at h
        split at h
        · next hc => exact hc
        · cases h

theorem readerKey_sample : readerKey sampleSuite (zeros 32) (zeros 32) 5 = zeroKey := if_pos rfl

theorem sample_bound {value : Bytes} {signature : Fixed 64} {plaintext : Bytes}
    (h : Opens sampleSuite (matching sampleOptions zeroKey value signature) zeroKey plaintext) :
    Bound sampleSuite (matching sampleOptions zeroKey value signature) zeroKey where
  aead key data m hm := by
    have hkey : readerKey sampleSuite sampleOptions.readerSecret zeroKey.val
        sampleOptions.period.toNat = zeroKey := readerKey_sample
    have hopened := h.opened
    dsimp only [matching] at hopened hm ⊢
    rw [hkey] at hopened ⊢
    exact tagOf_inj_zeros ((taggedAead_tag hm).symm.trans (taggedAead_tag hopened))
  hash input hi := by
    by_contra hne
    have hones : sampleSuite.hash input = ⟨List.replicate 32 1, rfl⟩ := if_neg hne
    rw [hones] at hi
    have hzero : List.replicate 32 (1 : UInt8) = zeros 32 :=
      (congrArg Subtype.val hi).trans (congrArg Subtype.val readerKey_sample)
    exact absurd hzero (by decide)
  blinding identity hi := by
    have hd : (if h : identity.length = 32 then some (⟨identity, h⟩ : Fixed 32) else none) =
        some zeroKey := hi
    split at hd
    · exact congrArg Subtype.val (Option.some.inj hd)
    · cases hd

theorem presence_records_sample : ∃ record signature,
    encodePresenceRecord sampleSuite ⟨zeros 16, rfl⟩ sampleOptions = .ok record ∧
    signMutable sampleSuite sampleOptions.signer record record.seq record.value
      (some record.publicKey) = .ok signature ∧
    openPresenceRecord sampleSuite (matching sampleOptions zeroKey record.value signature) =
      .ok ⟨5, 3, .descriptor [1, 2, 3]⟩ ∧
    openPlaintext sampleSuite (matching sampleOptions zeroKey record.value signature) =
      encodeBody 1 5 0 (zeros 32) (some [1, 2, 3]) ∧
    ∃ e, openPresenceRecord sampleSuite { matching sampleOptions zeroKey record.value signature with
      readerSecret := List.replicate 32 1 } = .error e := by
  have hlawful : sampleSuite.aead.Lawful := taggedAead_lawful
  obtain ⟨htrip, hcanonical, hreject⟩ := presence_records hlawful
  obtain ⟨record, hrecord⟩ : ∃ record,
      encodePresenceRecord sampleSuite ⟨zeros 16, rfl⟩ sampleOptions = .ok record := by
    have hok : (encodePresenceRecord sampleSuite ⟨zeros 16, rfl⟩ sampleOptions).toBool = true := by
      decide +kernel
    cases h : encodePresenceRecord sampleSuite ⟨zeros 16, rfl⟩ sampleOptions with
    | ok record => exact ⟨record, rfl⟩
    | error e =>
      rw [h] at hok
      cases hok
  have hcorrect : sampleOptions.signer.Correct sampleSuite zeroKey := ⟨rfl, fun _ _ _ => rfl⟩
  have hderived : sampleSuite.deriveBlindedPublicKey zeroKey.val sampleOptions.period.toNat =
      some zeroKey := rfl
  obtain ⟨b, hencodes, hsigns, hopens⟩ := htrip _ _ _ hrecord zeroKey zeroKey hcorrect hderived
  obtain ⟨signature, hsign⟩ := hsigns fun _ => rfl
  have hopen := hopens _ _ _ _ hsign
  obtain rfl : b = .descriptor [1, 2, 3] := by
    cases b with
    | descriptor bytes => rw [← Option.some.inj hencodes.2]
    | tombstone scope target => cases scope <;> exact absurd hencodes.1 (by decide)
  obtain ⟨plaintext, hplain, hbody⟩ := hcanonical _ _ hopen
  obtain ⟨publicKey, plaintext', h, -⟩ := openPresenceRecord_eq_ok hopen
  obtain rfl := Option.some.inj (hderived.symm.trans h.derived)
  refine ⟨record, signature, hrecord, hsign, hopen, hplain.trans hbody.symm, ?_⟩
  refine hreject _ _ _ hopen hderived (sample_bound h) _ rfl (.inr (.inr (.inr ?_)))
  show List.replicate 32 (1 : UInt8) ≠ zeros 32
  decide

end HyperDht.Private.PresenceRecord
