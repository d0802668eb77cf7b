import HyperDht.Dht.MessagesExact
import HyperDht.Lib.JsMap

/-!
# Mutable records

`onmutableget` and `onmutableput` of `lib/persistent.js`. A record is stored under the hash
of its public key as the bytes of a `mutableGetResponse`: sequence number, value and
signature. A put is refused where the signature does not cover number and value, where its
number is below the stored one, or where it has the stored number with another value. A number
is what `uint` reads, a double up to `2 ^ 64`; that one alone is not written as it was read.
-/

namespace HyperDht.Mutables

open CompactEncoding Messages

/-- What the handlers take from outside: the hash and the signature scheme of libsodium,
`NS.MUTABLE_PUT`, and memory with whatever it held before. -/
structure Env where
  hash : List UInt8 → Fixed 32
  verify : Fixed 64 → List UInt8 → Fixed 32 → Bool
  mutablePut : Fixed 32
  alloc : (n : Nat) → Fixed n

/-- `c.decode`; `none` where it throws. -/
def decodeBytes {α β : Type} (c : Codec α β) (b : List UInt8) : Option β :=
  (c.decode.run ⟨0, b.length, b⟩).map Prod.fst

structure MutableSignable where
  seq : Double
  value : Option Buffer
deriving DecidableEq

def mutableSignable : Codec MutableSignable MutableSignable where
  preencode m := do
    number.preencode m.seq
    buffer.preencode m.value
  encode m := do
    number.encode m.seq
    buffer.encode m.value
  decode := do
    let seq ← number.decode
    let value ← buffer.decode
    pure { seq, value }

def verifyMutable (e : Env) (signature : Fixed 64) (seq : Double) (value : Buffer)
    (publicKey : Fixed 32) : Option Bool := do
  let encoded ← mutableSignable.run e.alloc ⟨seq, some value⟩
  some (e.verify signature (e.mutablePut.val ++ (e.hash encoded).val) publicKey)

/-- `target`, `token` and `value` of a request, where it has them. -/
structure Request where
  target : Option (List UInt8)
  token : Option (List UInt8)
  value : Option (List UInt8)
deriving DecidableEq

inductive Answer where
  | silent
  | reply (value : Option (List UInt8))
  | seqReused
  | seqTooLow
  | throws
deriving DecidableEq

abbrev Store : Type := JsMap (List UInt8) (List UInt8)

def onmutableget (s : Store) (req : Request) : Answer :=
  match req.target, req.value with
  | some target, some value =>
    match decodeBytes number value with
    | none => .silent
    | some seq =>
      match s.get? target with
      | none => .reply none
      | some value =>
        match decodeBytes number value with
        | none => .throws
        | some localSeq => .reply (if localSeq < seq then none else some value)
  | _, _ => .silent

/-- `this.mutables.set` of an accepted put. -/
def store (e : Env) (s : Store) (k : List UInt8) (m : MutableGetResponse) : Store × Answer :=
  match mutableGetResponse.run e.alloc m with
  | none => (s, .throws)
  | some bytes => (s.set k bytes, .reply none)

def onmutableput (e : Env) (s : Store) (req : Request) : Store × Answer :=
  match req.target, req.token, req.value with
  | some target, some _, some value =>
    match decodeBytes mutablePutRequest value with
    | none => (s, .silent)
    | some p =>
      if (e.hash p.publicKey.val).val ≠ target then (s, .silent)
      else
        match p.value with
        | none => (s, .silent)
        | some value =>
          match verifyMutable e p.signature p.seq value p.publicKey with
          | none => (s, .throws)
          | some false => (s, .silent)
          | some true =>
            match s.get? target with
            | none => store e s target ⟨p.seq, some value, p.signature⟩
            | some bytes =>
              match decodeBytes mutableGetResponse bytes with
              | none => (s, .throws)
              | some existing =>
                if ∃ v ∈ existing.value, existing.seq = p.seq ∧ value ≠ v then (s, .seqReused)
                else if p.seq < existing.seq then (s, .seqTooLow)
                else store e s target ⟨p.seq, some value, p.signature⟩
  | _, _, _ => (s, .silent)

/-! ## The stored bytes -/

theorem decodeBytes_of_reads {α β : Type} {c : Codec α β} {a rest : List UInt8} {b : β}
    (h : Reads c.decode a b) : decodeBytes c (a ++ rest) = some b := by
  have hunread : a <+: (⟨0, (a ++ rest).length, a ++ rest⟩ : CodecState).unread := by
    unfold CodecState.unread
    rw [List.take_length, List.drop_zero]
    exact List.prefix_append a rest
  unfold decodeBytes
  rw [h _ hunread]
  rfl

theorem buffer_decode_ne_nil {s s' : CodecState} {v : Buffer}
    (h : buffer.decode.run s = some (some v, s')) : v.val ≠ [] := by
  obtain ⟨length, t, -, h⟩ := run_bind_eq_some h
  split at h
  · exact (Option.some_ne_none v (run_pure_eq_some h).symm).elim
  · next hlen =>
    obtain ⟨bytes, t', -, h⟩ := run_bind_eq_some h
    have hv : ofLength length bytes = v := Option.some.inj (run_pure_eq_some h)
    rintro hnil
    rw [← hv] at hnil
    have hbytes := bytes.property
    rw [show bytes.val = [] from hnil] at hbytes
    exact hlen hbytes.symm

theorem put_value_ne_nil {b : List UInt8} {p : MutablePutRequest} {v : Buffer}
    (h : decodeBytes mutablePutRequest b = some p) (hv : p.value = some v) : v.val ≠ [] := by
  obtain ⟨⟨p', s'⟩, hrun, rfl⟩ := Option.map_eq_some_iff.mp h
  obtain ⟨publicKey, t₁, -, hrun⟩ := run_bind_eq_some hrun
  obtain ⟨seq, t₂, -, hrun⟩ := run_bind_eq_some hrun
  obtain ⟨value, t₃, hvalue, hrun⟩ := run_bind_eq_some hrun
  obtain ⟨signature, t₄, -, hrun⟩ := run_bind_eq_some hrun
  have hp := run_pure_eq_some hrun
  rw [← hp] at hv
  dsimp only at hv
  rw [hv] at hvalue
  exact buffer_decode_ne_nil hvalue

theorem put_seq_le {b : List UInt8} {p : MutablePutRequest}
    (h : decodeBytes mutablePutRequest b = some p) : p.seq.val ≤ 2 ^ 64 := by
  obtain ⟨⟨p', s'⟩, hrun, rfl⟩ := Option.map_eq_some_iff.mp h
  obtain ⟨publicKey, t₁, -, hrun⟩ := run_bind_eq_some hrun
  obtain ⟨seq, t₂, hseq, hrun⟩ := run_bind_eq_some hrun
  obtain ⟨value, t₃, -, hrun⟩ := run_bind_eq_some hrun
  obtain ⟨signature, t₄, -, hrun⟩ := run_bind_eq_some hrun
  rw [← run_pure_eq_some hrun]
  exact number_decode_le hseq

theorem run_mutableSignable (alloc : (n : Nat) → Fixed n) (m : MutableSignable) :
    mutableSignable.run alloc m = some (uintBytes m.seq.val ++ bufferBytes m.value) := by
  refine Codec.run_eq ?_ ((writes_number m.seq).seq (writes_buffer m.value)) alloc
  rw [List.length_append]
  exact (reserves_number m.seq).seq (reserves_buffer m.value)

def signable (e : Env) (seq : Double) (value : Buffer) : List UInt8 :=
  e.mutablePut.val ++ (e.hash (uintBytes seq.val ++ bufferBytes (some value))).val

theorem verifyMutable_eq (e : Env) (signature : Fixed 64) (seq : Double) (value : Buffer)
    (publicKey : Fixed 32) : verifyMutable e signature seq value publicKey =
      some (e.verify signature (signable e seq value) publicKey) := by
  unfold verifyMutable
  rw [run_mutableSignable]
  rfl

theorem store_eq (e : Env) (s : Store) (k : List UInt8) (m : MutableGetResponse) :
    store e s k m = (s.set k m.bytes, .reply none) := by
  unfold store
  rw [Codec.run_eq (reserves_mutableGetResponse m) (writes_mutableGetResponse m)]

theorem decode_bytes {m : MutableGetResponse} (hseq : m.seq.val < 2 ^ 64)
    (h : nonEmpty m.value = m.value) : decodeBytes mutableGetResponse m.bytes = some m := by
  have hread : decodeBytes mutableGetResponse (m.bytes ++ []) = some m.norm :=
    decodeBytes_of_reads (exactAs_mutableGetResponse hseq).reads
  rw [List.append_nil] at hread
  rw [hread, MutableGetResponse.norm, h]

/-- The record of an overflowing put reads number 0. -/
theorem decode_overflowed {m : MutableGetResponse} (hseq : m.seq.val = 2 ^ 64) :
    decodeBytes mutableGetResponse m.bytes = some ⟨0, nonEmpty m.value, m.signature⟩ := by
  have hread : Reads mutableGetResponse.decode m.bytes ⟨0, nonEmpty m.value, m.signature⟩ := by
    unfold MutableGetResponse.bytes
    rw [hseq]
    exact reads_zero.bind ((reads_buffer m.value).bind (reads_fixed m.signature).done)
  have hdecode : decodeBytes mutableGetResponse (m.bytes ++ []) =
      some ⟨0, nonEmpty m.value, m.signature⟩ := decodeBytes_of_reads hread
  rwa [List.append_nil] at hdecode

theorem decode_seq_bytes {m : MutableGetResponse} (hseq : m.seq.val < 2 ^ 64) :
    decodeBytes number m.bytes = some m.seq :=
  decodeBytes_of_reads (reads_number hseq)

theorem nonEmpty_of_ne_nil {v : Buffer} (h : v.val ≠ []) : nonEmpty (some v) = some v := by
  simp [nonEmpty, h]

/-! ## One request -/

def record (s : Store) (k : List UInt8) : Option MutableGetResponse :=
  (s.get? k).bind (decodeBytes mutableGetResponse)

/-- A put that is accepted, with what it was checked for. -/
structure Accepts (e : Env) (s : Store) (req : Request) (k : List UInt8) (p : MutablePutRequest)
    (v : Buffer) : Prop where
  target : req.target = some k
  token : req.token.isSome = true
  decoded : req.value.bind (decodeBytes mutablePutRequest) = some p
  value : p.value = some v
  hashed : (e.hash p.publicKey.val).val = k
  signed : e.verify p.signature (signable e p.seq v) p.publicKey = true
  notLow : ∀ r, record s k = some r → r.seq ≤ p.seq
  notReused : ∀ r v', record s k = some r → r.value = some v' → r.seq = p.seq → v = v'

/-- A put is refused and changes nothing, or stores what was signed. -/
theorem onmutableput_cases (e : Env) (s : Store) (req : Request) :
    ((onmutableput e s req).1 = s ∧ (onmutableput e s req).2 ≠ .reply none) ∨
    ∃ k p v, Accepts e s req k p v ∧
      onmutableput e s req =
        (s.set k (⟨p.seq, some v, p.signature⟩ : MutableGetResponse).bytes, .reply none) := by
  unfold onmutableput
  split
  · next target token value htarget htoken hvalue =>
    split
    · exact .inl ⟨rfl, by simp⟩
    · next p hp =>
      split
      · exact .inl ⟨rfl, by simp⟩
      · next hhash =>
        split
        · exact .inl ⟨rfl, by simp⟩
        · next v hv =>
          rw [verifyMutable_eq]
          split
          · exact .inl ⟨rfl, by simp⟩
          · exact .inl ⟨rfl, by simp⟩
          · next hverify =>
            have hsigned := Option.some.inj hverify
            have hgiven : req.token.isSome = true := by rw [htoken]; rfl
            have hdecoded : req.value.bind (decodeBytes mutablePutRequest) = some p := by
              rw [hvalue]
              exact hp
            split
            · next hget =>
              rw [store_eq]
              refine .inr ⟨target, p, v,
                ⟨htarget, hgiven, hdecoded, hv, not_not.mp hhash, hsigned, ?_, ?_⟩, rfl⟩
              · intro r hr
                simp [record, hget] at hr
              · intro r v' hr
                simp [record, hget] at hr
            · next bytes hget =>
              split
              · exact .inl ⟨rfl, by simp⟩
              · next existing hexisting =>
                have hrecord : record s target = some existing := by
                  rw [record, hget]
                  exact hexisting
                split
                · exact .inl ⟨rfl, by simp⟩
                · next hreused =>
                  split
                  · exact .inl ⟨rfl, by simp⟩
                  · next hlow =>
                    rw [store_eq]
                    refine .inr ⟨target, p, v, ⟨htarget, hgiven, hdecoded, hv, not_not.mp hhash,
                      hsigned, fun r hr => ?_, fun r v' hr hv' hseq => ?_⟩, rfl⟩
                    · obtain rfl := Option.some.inj (hrecord.symm.trans hr)
                      exact Double.not_lt.mp hlow
                    · obtain rfl := Option.some.inj (hrecord.symm.trans hr)
                      by_contra hne
                      exact hreused ⟨v', hv', hseq, hne⟩
  · exact .inl ⟨rfl, by simp⟩

/-! ## Runs of requests -/

inductive Call where
  | get (req : Request)
  | put (req : Request)

def step (e : Env) (s : Store) : Call → Store
  | .get _ => s
  | .put req => (onmutableput e s req).1

def run (e : Env) (calls : List Call) : Store := calls.foldl (step e) .empty

/-- A put of a number from `2 ^ 64` on that passes every check made before the stored record
is looked at. -/
def Overflows (e : Env) (req : Request) : Prop :=
  ∃ (p : MutablePutRequest) (v : Buffer), req.target = some (e.hash p.publicKey.val).val ∧
    req.token.isSome = true ∧ req.value.bind (decodeBytes mutablePutRequest) = some p ∧
    p.value = some v ∧ e.verify p.signature (signable e p.seq v) p.publicKey = true ∧
    2 ^ 64 ≤ p.seq.val

/-- No put of the calls overflows. -/
def Fits (e : Env) (calls : List Call) : Prop := ∀ req, .put req ∈ calls → ¬Overflows e req

theorem Fits.append {e : Env} {calls calls' : List Call} (h : Fits e (calls ++ calls')) :
    Fits e calls ∧ Fits e calls' :=
  ⟨fun req hm => h req (List.mem_append_left calls' hm),
    fun req hm => h req (List.mem_append_right calls hm)⟩

/-- Under every key the bytes of a record that a key of that hash has signed. -/
def Signed (e : Env) (s : Store) : Prop :=
  ∀ k bytes, s.get? k = some bytes → ∃ (m : MutableGetResponse) (publicKey : Fixed 32) (v : Buffer),
    bytes = m.bytes ∧ m.seq.val < 2 ^ 64 ∧ m.value = some v ∧ v.val ≠ [] ∧
      (e.hash publicKey.val).val = k ∧ e.verify m.signature (signable e m.seq v) publicKey = true

/-- What a later record of a key may be. -/
def Later (m m' : MutableGetResponse) : Prop := m.seq ≤ m'.seq ∧ (m.seq = m'.seq → m.value = m'.value)

theorem Later.refl (m : MutableGetResponse) : Later m m := ⟨Nat.le_refl _, fun _ => rfl⟩

theorem Later.trans {m m' m'' : MutableGetResponse} (h : Later m m') (h' : Later m' m'') :
    Later m m'' := by
  refine ⟨Nat.le_trans h.1 h'.1, fun he => ?_⟩
  have hle : m'.seq ≤ m.seq := he ▸ h'.1
  have hsame : m.seq = m'.seq := Double.ext_val (Nat.le_antisymm h.1 hle)
  exact (h.2 hsame).trans (h'.2 (hsame.symm.trans he))

variable {e : Env} {s : Store}

theorem Signed.record_eq (h : Signed e s) {k bytes : List UInt8} (hb : s.get? k = some bytes) :
    ∃ m v, bytes = m.bytes ∧ m.seq.val < 2 ^ 64 ∧ m.value = some v ∧ record s k = some m := by
  obtain ⟨m, publicKey, v, rfl, hseq, hv, hne, -, -⟩ := h k bytes hb
  refine ⟨m, v, rfl, hseq, hv, ?_⟩
  rw [record, hb]
  exact decode_bytes hseq (by rw [hv]; exact nonEmpty_of_ne_nil hne)

theorem Accepts.ne_nil {req : Request} {k : List UInt8} {p : MutablePutRequest} {v : Buffer}
    (h : Accepts e s req k p v) : v.val ≠ [] := by
  obtain ⟨b, -, hp⟩ := Option.bind_eq_some_iff.mp h.decoded
  exact put_value_ne_nil hp h.value

theorem Accepts.seq_lt {req : Request} {k : List UInt8} {p : MutablePutRequest} {v : Buffer}
    (h : Accepts e s req k p v) (hfit : ¬Overflows e req) : p.seq.val < 2 ^ 64 := by
  by_contra hge
  exact hfit ⟨p, v, h.hashed ▸ h.target, h.token, h.decoded, h.value, h.signed, Nat.le_of_not_lt hge⟩

theorem Accepts.signed_set {req : Request} {k : List UInt8} {p : MutablePutRequest} {v : Buffer}
    (h : Accepts e s req k p v) (hseq : p.seq.val < 2 ^ 64) (hs : Signed e s) :
    Signed e (s.set k (⟨p.seq, some v, p.signature⟩ : MutableGetResponse).bytes) := by
  intro k' bytes hb
  rw [JsMap.get?_set] at hb
  split at hb
  · next hk =>
    obtain rfl := Option.some.inj hb
    exact ⟨_, p.publicKey, v, rfl, hseq, rfl, h.ne_nil, h.hashed.trans hk.symm, h.signed⟩
  · exact hs k' bytes hb

theorem Accepts.record_set {req : Request} {k : List UInt8} {p : MutablePutRequest} {v : Buffer}
    (h : Accepts e s req k p v) (hseq : p.seq.val < 2 ^ 64) (k' : List UInt8) :
    record (s.set k (⟨p.seq, some v, p.signature⟩ : MutableGetResponse).bytes) k' =
      if k' = k then some ⟨p.seq, some v, p.signature⟩ else record s k' := by
  unfold record
  rw [JsMap.get?_set]
  split
  · exact decode_bytes hseq (nonEmpty_of_ne_nil h.ne_nil)
  · rfl

theorem Signed.put (h : Signed e s) {req : Request} (hfit : ¬Overflows e req) :
    Signed e (onmutableput e s req).1 := by
  rcases onmutableput_cases e s req with ⟨he, -⟩ | ⟨k, p, v, ha, he⟩
  · rw [he]
    exact h
  · rw [he]
    exact ha.signed_set (ha.seq_lt hfit) h

theorem Signed.later_put (h : Signed e s) {req : Request} (hfit : ¬Overflows e req)
    {k : List UInt8} {m : MutableGetResponse} (hm : record s k = some m) :
    ∃ m', record (onmutableput e s req).1 k = some m' ∧ Later m m' := by
  rcases onmutableput_cases e s req with ⟨he, -⟩ | ⟨k', p, v, ha, he⟩
  · rw [he]
    exact ⟨m, hm, .refl m⟩
  · rw [he]
    dsimp only
    rw [ha.record_set (ha.seq_lt hfit)]
    by_cases hk : k = k'
    · subst hk
      refine ⟨_, if_pos rfl, ha.notLow m hm, fun hseq => ?_⟩
      obtain ⟨bytes, hb, hdecode⟩ := Option.bind_eq_some_iff.mp hm
      obtain ⟨m', v', -, -, hv', hm'⟩ := h.record_eq hb
      obtain rfl := Option.some.inj (hm.symm.trans hm')
      rw [hv', ha.notReused m v' hm hv' hseq]
    · exact ⟨m, by rw [if_neg hk]; exact hm, .refl m⟩

theorem Fits.head {c : Call} {calls : List Call} (h : Fits e (c :: calls)) {req : Request}
    (hc : c = .put req) : ¬Overflows e req := h req (hc ▸ List.mem_cons_self)

theorem Fits.tail {c : Call} {calls : List Call} (h : Fits e (c :: calls)) : Fits e calls :=
  fun req hm => h req (List.mem_cons_of_mem c hm)

theorem signed_foldl (h : Signed e s) {calls : List Call} (hfit : Fits e calls) :
    Signed e (calls.foldl (step e) s) := by
  induction calls generalizing s with
  | nil => exact h
  | cons c calls ih =>
    cases c with
    | get req => exact ih h hfit.tail
    | put req => exact ih (h.put (hfit.head rfl)) hfit.tail

theorem signed_run {calls : List Call} (hfit : Fits e calls) : Signed e (run e calls) :=
  signed_foldl (fun _ _ hb => by simp at hb) hfit

theorem later_foldl (h : Signed e s) {calls : List Call} (hfit : Fits e calls) {k : List UInt8}
    {m : MutableGetResponse} (hm : record s k = some m) :
    ∃ m', record (calls.foldl (step e) s) k = some m' ∧ Later m m' := by
  induction calls generalizing s m with
  | nil => exact ⟨m, hm, .refl m⟩
  | cons c calls ih =>
    cases c with
    | get req => exact ih h hfit.tail hm
    | put req =>
      obtain ⟨m', hm', hlater⟩ := h.later_put (hfit.head rfl) hm
      obtain ⟨m'', hm'', hlater'⟩ := ih (h.put (hfit.head rfl)) hfit.tail hm'
      exact ⟨m'', hm'', hlater.trans hlater'⟩

theorem Accepts.of_reply {req : Request} (h : (onmutableput e s req).2 = .reply none) :
    ∃ k p v, Accepts e s req k p v ∧
      (onmutableput e s req).1 =
        s.set k (⟨p.seq, some v, p.signature⟩ : MutableGetResponse).bytes := by
  rcases onmutableput_cases e s req with ⟨-, hne⟩ | ⟨k, p, v, ha, he⟩
  · exact (hne h).elim
  · exact ⟨k, p, v, ha, by rw [he]⟩

/-- A put that overflows is accepted, whatever is stored, and is kept under number 0. -/
theorem Signed.overflow (h : Signed e s) {req : Request} (ho : Overflows e req) :
    ∃ k v signature, req.target = some k ∧ (onmutableput e s req).2 = .reply none ∧
      record (onmutableput e s req).1 k = some ⟨0, some v, signature⟩ := by
  obtain ⟨p, v, htarget, htoken, hdecoded, hv, hverify, hge⟩ := ho
  obtain ⟨token, htoken⟩ := Option.isSome_iff_exists.mp htoken
  obtain ⟨value, hvalue, hp⟩ := Option.bind_eq_some_iff.mp hdecoded
  have hseq : p.seq.val = 2 ^ 64 := Nat.le_antisymm (put_seq_le hp) hge
  have hput : onmutableput e s req =
      (s.set (e.hash p.publicKey.val).val (⟨p.seq, some v, p.signature⟩ : MutableGetResponse).bytes,
        .reply none) := by
    unfold onmutableput
    rw [htarget, htoken, hvalue]
    dsimp only
    rw [hp]
    dsimp only
    rw [if_neg (not_not.mpr rfl), hv]
    dsimp only
    rw [verifyMutable_eq, hverify]
    dsimp only
    cases hget : s.get? (e.hash p.publicKey.val).val with
    | none => exact store_eq e s _ _
    | some bytes =>
      obtain ⟨m, -, rfl, hm, -, hrecord⟩ := h.record_eq hget
      rw [record, hget] at hrecord
      have hrecord : decodeBytes mutableGetResponse m.bytes = some m := hrecord
      dsimp only
      rw [hrecord]
      dsimp only
      have hne : m.seq ≠ p.seq := fun he => by
        rw [he] at hm
        omega
      have hle : ¬p.seq < m.seq := Double.not_lt.mpr (by show m.seq.val ≤ p.seq.val; omega)
      rw [if_neg (fun ⟨_, _, he, _⟩ => hne he), if_neg hle]
      exact store_eq e s _ _
  refine ⟨_, v, p.signature, htarget, by rw [hput], ?_⟩
  rw [hput, record, JsMap.get?_set, if_pos rfl]
  have hvalue := nonEmpty_of_ne_nil (put_value_ne_nil hp hv)
  exact (decode_overflowed hseq).trans (by rw [hvalue])
/-- A get gives the record unless a later one is asked for. -/
theorem onmutableget_eq (h : Signed e s) {target value : List UInt8} {seq : Double}
    (hseq : decodeBytes number value = some seq) (token : Option (List UInt8)) :
    onmutableget s ⟨some target, token, some value⟩ = .reply (match record s target with
      | none => none
      | some m => if seq ≤ m.seq then s.get? target else none) := by
  unfold onmutableget
  dsimp only
  rw [hseq]
  dsimp only
  cases hb : s.get? target with
  | none =>
    have hnone : record s target = none := by rw [record, hb]; rfl
    rw [hnone]
  | some bytes =>
    obtain ⟨m, v, rfl, hm64, -, hm⟩ := h.record_eq hb
    rw [hm]
    dsimp only
    rw [decode_seq_bytes hm64]
    dsimp only
    by_cases hlt : m.seq < seq
    · rw [if_pos hlt, if_neg (Double.not_le.mpr hlt)]
    · rw [if_neg hlt, if_pos (Double.not_lt.mp hlt)]

/-- Over any requests, as long as no put overflows: what is stored was signed by a key with the
target's hash; its number never falls, and with the number its value stays; two accepted puts
of one number have one value; a refused put changes nothing; and a get is answered with the
record from its number down. The first put that overflows is kept under number 0. -/
theorem mutables_monotone (e : Env) :
    (∀ calls, Fits e calls → ∀ k bytes, (run e calls).get? k = some bytes →
      ∃ m publicKey v, decodeBytes mutableGetResponse bytes = some m ∧ m.value = some v ∧
        (e.hash publicKey.val).val = k ∧
        e.verify m.signature (signable e m.seq v) publicKey = true) ∧
    (∀ calls calls', Fits e (calls ++ calls') → ∀ k m, record (run e calls) k = some m →
      ∃ m', record (run e (calls ++ calls')) k = some m' ∧ m.seq ≤ m'.seq ∧
        (m.seq = m'.seq → m.value = m'.value)) ∧
    (∀ calls req calls' req', Fits e (calls ++ .put req :: calls') →
      ∀ k p p', req.target = some k → req'.target = some k →
      req.value.bind (decodeBytes mutablePutRequest) = some p →
      req'.value.bind (decodeBytes mutablePutRequest) = some p' →
      (onmutableput e (run e calls) req).2 = .reply none →
      (onmutableput e (run e (calls ++ .put req :: calls')) req').2 = .reply none →
      p.seq = p'.seq → p.value = p'.value) ∧
    (∀ calls req, (onmutableput e (run e calls) req).2 ≠ .reply none →
      (onmutableput e (run e calls) req).1 = run e calls) ∧
    (∀ calls, Fits e calls → ∀ target token value seq, decodeBytes number value = some seq →
      onmutableget (run e calls) ⟨some target, token, some value⟩ =
        .reply (match record (run e calls) target with
          | none => none
          | some m => if seq ≤ m.seq then (run e calls).get? target else none)) ∧
    (∀ calls, Fits e calls → ∀ req, Overflows e req → ∃ k v signature, req.target = some k ∧
      (onmutableput e (run e calls) req).2 = .reply none ∧
      record (onmutableput e (run e calls) req).1 k = some ⟨0, some v, signature⟩) := by
  refine ⟨fun calls hfit k bytes hb => ?_, fun calls calls' hfit k m hm => ?_, ?_,
    fun calls req hne => ?_,
    fun calls hfit target token value seq hseq => onmutableget_eq (signed_run hfit) hseq token,
    fun calls hfit req ho => (signed_run hfit).overflow ho⟩
  · obtain ⟨m, publicKey, v, rfl, hseq, hv, hnil, hk, hverify⟩ := signed_run hfit k bytes hb
    exact ⟨m, publicKey, v, decode_bytes hseq (by rw [hv]; exact nonEmpty_of_ne_nil hnil), hv, hk,
      hverify⟩
  · obtain ⟨m', hm', hlater⟩ := later_foldl (signed_run hfit.append.1) hfit.append.2 hm
    refine ⟨m', ?_, hlater⟩
    rw [run, List.foldl_append]
    exact hm'
  · intro calls req calls' req' hfit k p p' ht ht' hp hp' ha ha' hseq
    obtain ⟨hbefore, hafter⟩ := hfit.append
    obtain ⟨k₁, p₁, v₁, h₁, hstore⟩ := Accepts.of_reply ha
    obtain ⟨k₂, p₂, v₂, h₂, -⟩ := Accepts.of_reply ha'
    obtain rfl := Option.some.inj (ht.symm.trans h₁.target)
    obtain rfl := Option.some.inj (ht'.symm.trans h₂.target)
    obtain rfl := Option.some.inj (hp.symm.trans h₁.decoded)
    obtain rfl := Option.some.inj (hp'.symm.trans h₂.decoded)
    have hreq := hafter.head rfl
    have hrecord : record (step e (run e calls) (.put req)) k =
        some ⟨p.seq, some v₁, p.signature⟩ := by
      show record (onmutableput e (run e calls) req).1 k = _
      rw [hstore, h₁.record_set (h₁.seq_lt hreq), if_pos rfl]
    obtain ⟨m', hm', hle, hsame⟩ :=
      later_foldl ((signed_run hbefore).put hreq) hafter.tail hrecord
    have hrun : run e (calls ++ .put req :: calls') =
        calls'.foldl (step e) (step e (run e calls) (.put req)) := by
      rw [run, List.foldl_append]
      rfl
    rw [hrun] at h₂
    have hge : m'.seq ≤ p.seq := hseq ▸ h₂.notLow m' hm'
    have heq : p.seq = m'.seq := Double.ext_val (Nat.le_antisymm hle hge)
    have hvalue := (hsame heq).symm
    rw [h₁.value, h₂.value, h₂.notReused m' v₁ hm' hvalue (heq.symm.trans hseq)]
  · rcases onmutableput_cases e (run e calls) req with ⟨he, -⟩ | ⟨k, p, v, -, he⟩
    · exact he
    · rw [he] at hne
      exact (hne rfl).elim

/-- A hash and a signature scheme with one value. -/
def plainEnv : Env where
  hash _ := Fixed.replicate 32 0
  verify _ _ _ := true
  mutablePut := Fixed.replicate 32 0
  alloc n := Fixed.replicate n 0

def plainKey : List UInt8 := List.replicate 32 0

/-- A put of one byte, the number as it is on the wire. -/
def plainPut (seq : List UInt8) (value : UInt8) : Request :=
  ⟨some plainKey, some [], some (plainKey ++ seq ++ [1, value] ++ List.replicate 64 0)⟩

/-- The largest number of nine bytes is read as `2 ^ 64`, and written as zeros: the number of
the record falls from 5 to 0. -/
theorem mutables_fall :
    let before := run plainEnv [.put (plainPut [5] 1)]
    let req := plainPut (List.replicate 9 0xff) 2
    (record before plainKey).map (fun m => m.seq.val) = some 5 ∧
      (onmutableput plainEnv before req).2 = .reply none ∧
      (record (onmutableput plainEnv before req).1 plainKey).map (fun m => m.seq.val) = some 0 := by
  decide +kernel

end HyperDht.Mutables
