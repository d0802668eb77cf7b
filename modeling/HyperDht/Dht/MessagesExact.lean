import HyperDht.Dht.Messages

/-!
# What the message codecs write and read

For every codec the bytes of a message, what is reserved for them, and the message they
are read as. `handshake`, `noisePayload`, `holepunch` and `holepunchPayload` reserve one
byte for fields that are written as integers of any size, so each is exact just on
messages where these are below 253; the other six are exact on every message, the mutable
ones as far as `uint` reads back what it wrote.
-/

namespace HyperDht

open CompactEncoding

/-! ## Parts that are exact on every value -/

theorem Codec.ExactAs.exact {α β : Type} {c : Codec α β} {a : α} {b : β} {bytes : List UInt8}
    (h : c.ExactAs a b bytes) : c.Exact a b := ⟨bytes, h⟩

namespace Messages

theorem exactAs_ipv4 (a : Ipv4) : ipv4.ExactAs a a (addressBytes a) :=
  ⟨reserves_address a, writes_address a, reads_address a⟩

theorem exactAs_array {α : Type} {c : Codec α α} {bytes : α → List UInt8}
    (h : ∀ a, c.ExactAs a a (bytes a)) (l : Arr α) :
    (array c).ExactAs l l (arrayBytes bytes l) :=
  ⟨reserves_array fun a _ => (h a).reserves, writes_array fun a _ => (h a).writes,
    reads_array fun a _ => (h a).reads⟩

theorem exactAs_ipv4Array (l : Arr Ipv4) :
    ipv4Array.ExactAs l l (arrayBytes addressBytes l) := exactAs_array exactAs_ipv4 l

theorem exactAs_ipv6Array (l : Arr Ipv6) : ipv6Array.ExactAs l l (arrayBytes addressBytes l) :=
  exactAs_array (fun a => ⟨reserves_address a, writes_address a, reads_address a⟩) l

theorem length_optional_ipv4 (o : Option Ipv4) :
    (optional addressBytes o).length = if o.isSome then 6 else 0 := by
  cases o with
  | none => rfl
  | some a => exact length_address a

theorem length_optional_fixed {n : Nat} (o : Option (Fixed n)) :
    (optional Subtype.val o).length = if o.isSome then n else 0 := by
  cases o with
  | none => rfl
  | some a => exact a.property

/-! ## `handshake` -/

/-- What is decoded again. -/
def Handshake.norm (m : Handshake) : Handshake := { m with noise := nonEmpty m.noise }

def Handshake.bytes (m : Handshake) : List UInt8 :=
  uintBytes m.flags.val ++ (uintBytes m.mode.val ++ (bufferBytes m.noise ++
    (optional addressBytes m.peerAddress ++ optional addressBytes m.relayAddress)))

theorem flags_handshake : ∀ a b : Bool,
    let flags : Uint := (if a then 1 else 0) ||| (if b then 2 else 0)
    flags.val < 253 ∧ (flags &&& 1 != 0) = a ∧ (flags &&& 2 != 0) = b := by decide

theorem writes_handshake (m : Handshake) : Writes (handshake.encode m) m.bytes :=
  (writes_uint m.flags).seq ((writes_uint m.mode).seq ((writes_buffer m.noise).seq
    ((writes_whenSome writes_address m.peerAddress).seq
      (writes_whenSome writes_address m.relayAddress))))

theorem reads_handshake (m : Handshake) : Reads handshake.decode m.bytes m.norm := by
  obtain ⟨-, h₁, h₂⟩ := flags_handshake m.peerAddress.isSome m.relayAddress.isSome
  exact (reads_uint m.flags).bind ((reads_uint m.mode).bind ((reads_buffer m.noise).bind
    ((reads_ifSet reads_address h₁).bind (reads_ifSet reads_address h₂).done)))

theorem exact_handshake (m : Handshake) : handshake.Exact m m.norm ↔ m.mode.val < 253 := by
  obtain ⟨hflags, -, -⟩ := flags_handshake m.peerAddress.isSome m.relayAddress.isSome
  have hone : (uintBytes m.flags.val).length = 1 := length_uintBytes_eq_one.mpr hflags
  rw [Codec.exact_iff ((reserves_grow _).seq (reserves_buffer m.noise)) (writes_handshake m)
    (reads_handshake m), ← length_uintBytes_eq_one]
  unfold Handshake.bytes
  simp only [List.length_append, length_optional_ipv4, hone]
  omega

/-! ## `noisePayload` -/

def RelayInfo.bytes (m : RelayInfo) : List UInt8 := addressBytes m.relayAddress ++ addressBytes m.peerAddress

theorem exactAs_relayInfo (m : RelayInfo) : relayInfo.ExactAs m m m.bytes where
  reserves := by
    have hlen : m.bytes.length = 12 := by
      rw [RelayInfo.bytes, List.length_append, length_address, length_address]
    rw [hlen]
    exact reserves_grow 12
  writes := (writes_address _).seq (writes_address _)
  reads := (reads_address _).bind (reads_address _).done

def HolepunchInfo.bytes (m : HolepunchInfo) : List UInt8 :=
  uintBytes m.id.val ++ arrayBytes RelayInfo.bytes m.relays

theorem exactAs_holepunchInfo (m : HolepunchInfo) : holepunchInfo.ExactAs m m m.bytes where
  reserves := by
    rw [HolepunchInfo.bytes, List.length_append]
    exact (reserves_uint m.id).seq (exactAs_array exactAs_relayInfo m.relays).reserves
  writes := (writes_uint m.id).seq (exactAs_array exactAs_relayInfo m.relays).writes
  reads := (reads_uint m.id).bind (exactAs_array exactAs_relayInfo m.relays).reads.done

def UdxInfo.norm (m : UdxInfo) : UdxInfo := { m with version := 1 }

def UdxInfo.bytes (m : UdxInfo) : List UInt8 :=
  uintBytes 1 ++ (uintBytes (if m.reusableSocket then 1 else 0 : Uint).val ++
    (uintBytes m.id.val ++ uintBytes m.seq.val))

theorem exactAs_udxInfo (m : UdxInfo) : udxInfo.ExactAs m m.norm m.bytes where
  reserves := by
    have hone : (uintBytes (if m.reusableSocket then 1 else 0 : Uint).val).length = 1 := by
      cases m.reusableSocket <;> decide
    rw [UdxInfo.bytes, List.length_append, List.length_append, List.length_append, hone,
      ← Nat.add_assoc]
    exact (reserves_grow 2).seq ((reserves_uint m.id).seq (reserves_uint m.seq))
  writes := (writes_uint 1).seq ((writes_uint _).seq ((writes_uint m.id).seq (writes_uint m.seq)))
  reads := by
    have hflag : ((if m.reusableSocket then 1 else 0 : Uint) &&& 1 != 0) = m.reusableSocket := by
      cases m.reusableSocket <;> decide
    refine ((reads_uint 1).bind ((reads_uint _).bind ((reads_uint m.id).bind
      (reads_uint m.seq).done))).as ?_
    rw [hflag]
    rfl

def SecretStreamInfo.norm (_ : SecretStreamInfo) : SecretStreamInfo := { version := 1 }

theorem exactAs_secretStreamInfo (m : SecretStreamInfo) :
    secretStreamInfo.ExactAs m m.norm (uintBytes 1) where
  reserves := reserves_uint 1
  writes := writes_uint 1
  reads := (reads_uint 1).done

def RelayThroughInfo.norm (m : RelayThroughInfo) : RelayThroughInfo := { m with version := 1 }

def RelayThroughInfo.bytes (m : RelayThroughInfo) : List UInt8 :=
  uintBytes 1 ++ (uintBytes 0 ++ (m.publicKey.val ++ m.token.val))

theorem exactAs_relayThroughInfo (m : RelayThroughInfo) :
    relayThroughInfo.ExactAs m m.norm m.bytes where
  reserves := by
    rw [RelayThroughInfo.bytes, List.length_append, List.length_append, List.length_append]
    exact (reserves_uint 1).seq ((reserves_uint 0).seq
      ((reserves_fixed m.publicKey).seq (reserves_fixed m.token)))
  writes := (writes_uint 1).seq ((writes_uint 0).seq
    ((writes_fixed m.publicKey).seq (writes_fixed m.token)))
  reads := (reads_uint 1).bind ((reads_uint 0).bind
    ((reads_fixed m.publicKey).bind (reads_fixed m.token).done))

/-- The versions are filled in, and addresses that are not there come back as none. -/
def NoisePayload.norm (m : NoisePayload) : NoisePayload :=
  { m with
    version := 1
    addresses4 := some (m.addresses4.getD empty)
    addresses6 := some (m.addresses6.getD empty)
    udx := m.udx.map UdxInfo.norm
    secretStream := m.secretStream.map SecretStreamInfo.norm
    relayThrough := m.relayThrough.map RelayThroughInfo.norm }

/-- The fields behind the four integers at the front. -/
def NoisePayload.fields (m : NoisePayload) : List UInt8 :=
  optional HolepunchInfo.bytes m.holepunch ++
    (optional (arrayBytes addressBytes) (nonEmpty m.addresses4) ++
      (optional (arrayBytes addressBytes) (nonEmpty m.addresses6) ++
        (optional UdxInfo.bytes m.udx ++ (optional (fun _ => uintBytes 1) m.secretStream ++
          (optional RelayThroughInfo.bytes m.relayThrough ++
            optional (arrayBytes addressBytes) m.relayAddresses)))))

def NoisePayload.bytes (m : NoisePayload) : List UInt8 :=
  uintBytes 1 ++ (uintBytes m.flags.val ++ (uintBytes m.error.val ++
    (uintBytes m.firewall.val ++ m.fields)))

theorem flags_noisePayload : ∀ a b c d e f g : Bool,
    let flags : Uint := (if a then 1 else 0) ||| (if b then 2 else 0) ||| (if c then 4 else 0) |||
      (if d then 8 else 0) ||| (if e then 16 else 0) ||| (if f then 32 else 0) |||
      (if g then 64 else 0)
    flags.val < 253 ∧ (flags &&& 1 != 0) = a ∧ (flags &&& 2 != 0) = b ∧ (flags &&& 4 != 0) = c ∧
      (flags &&& 8 != 0) = d ∧ (flags &&& 16 != 0) = e ∧ (flags &&& 32 != 0) = f ∧
      (flags &&& 64 != 0) = g := by decide

theorem getD_nonEmpty {α : Type} (l : Option (Arr α)) : (nonEmpty l).getD empty = l.getD empty := by
  cases l with
  | none => rfl
  | some l =>
    obtain ⟨l, hl⟩ := l
    cases l <;> rfl

theorem reserves_noisePayload (m : NoisePayload) :
    Reserves (noisePayload.preencode m) (4 + m.fields.length) := by
  simp only [NoisePayload.fields, List.length_append]
  exact (reserves_grow 4).seq
    ((reserves_whenSome (fun a => (exactAs_holepunchInfo a).reserves) m.holepunch).seq
    ((reserves_whenSome (fun a => (exactAs_ipv4Array a).reserves) (nonEmpty m.addresses4)).seq
    ((reserves_whenSome (fun a => (exactAs_ipv6Array a).reserves) (nonEmpty m.addresses6)).seq
    ((reserves_whenSome (fun a => (exactAs_udxInfo a).reserves) m.udx).seq
    ((reserves_whenSome (fun a => (exactAs_secretStreamInfo a).reserves) m.secretStream).seq
    ((reserves_whenSome (fun a => (exactAs_relayThroughInfo a).reserves) m.relayThrough).seq
      (reserves_whenSome (fun a => (exactAs_ipv4Array a).reserves) m.relayAddresses)))))))

theorem writes_noisePayload (m : NoisePayload) : Writes (noisePayload.encode m) m.bytes :=
  (writes_uint 1).seq ((writes_uint m.flags).seq ((writes_uint m.error).seq
    ((writes_uint m.firewall).seq
    ((writes_whenSome (fun a => (exactAs_holepunchInfo a).writes) m.holepunch).seq
    ((writes_whenSome (fun a => (exactAs_ipv4Array a).writes) (nonEmpty m.addresses4)).seq
    ((writes_whenSome (fun a => (exactAs_ipv6Array a).writes) (nonEmpty m.addresses6)).seq
    ((writes_whenSome (fun a => (exactAs_udxInfo a).writes) m.udx).seq
    ((writes_whenSome (fun a => (exactAs_secretStreamInfo a).writes) m.secretStream).seq
    ((writes_whenSome (fun a => (exactAs_relayThroughInfo a).writes) m.relayThrough).seq
      (writes_whenSome (fun a => (exactAs_ipv4Array a).writes) m.relayAddresses))))))))))

theorem reads_noisePayload (m : NoisePayload) : Reads noisePayload.decode m.bytes m.norm := by
  obtain ⟨-, h₁, h₂, h₃, h₄, h₅, h₆, h₇⟩ := flags_noisePayload m.holepunch.isSome
    (nonEmpty m.addresses4).isSome (nonEmpty m.addresses6).isSome m.udx.isSome
    m.secretStream.isSome m.relayThrough.isSome m.relayAddresses.isSome
  refine ((reads_uint 1).bind ((reads_uint m.flags).bind ((reads_uint m.error).bind
    ((reads_uint m.firewall).bind
    ((reads_ifSet (fun a => (exactAs_holepunchInfo a).reads) h₁).bind
    ((reads_ifSet (fun a => (exactAs_ipv4Array a).reads) h₂).bind
    ((reads_ifSet (fun a => (exactAs_ipv6Array a).reads) h₃).bind
    ((reads_ifSet_map (fun a => (exactAs_udxInfo a).reads) h₄).bind
    ((reads_ifSet_map (fun a => (exactAs_secretStreamInfo a).reads) h₅).bind
    ((reads_ifSet_map (fun a => (exactAs_relayThroughInfo a).reads) h₆).bind
      (reads_ifSet (fun a => (exactAs_ipv4Array a).reads) h₇).done)))))))))).as ?_
  rw [getD_nonEmpty, getD_nonEmpty]
  rfl

theorem exact_noisePayload (m : NoisePayload) :
    noisePayload.Exact m m.norm ↔ m.error.val < 253 ∧ m.firewall.val < 253 := by
  obtain ⟨hflags, -⟩ := flags_noisePayload m.holepunch.isSome (nonEmpty m.addresses4).isSome
    (nonEmpty m.addresses6).isSome m.udx.isSome m.secretStream.isSome m.relayThrough.isSome
    m.relayAddresses.isSome
  have hone : (uintBytes m.flags.val).length = 1 := length_uintBytes_eq_one.mpr hflags
  have hversion : (uintBytes 1).length = 1 := rfl
  have herror := uintBytes_pos m.error.val
  have hfirewall := uintBytes_pos m.firewall.val
  rw [Codec.exact_iff (reserves_noisePayload m) (writes_noisePayload m) (reads_noisePayload m),
    ← length_uintBytes_eq_one, ← length_uintBytes_eq_one]
  unfold NoisePayload.bytes
  simp only [List.length_append, hone, hversion]
  omega

/-! ## `holepunch` and `holepunchPayload` -/

def Holepunch.norm (m : Holepunch) : Holepunch := { m with payload := nonEmpty m.payload }

def Holepunch.flags (m : Holepunch) : Uint := if m.peerAddress.isSome then 1 else 0

def Holepunch.bytes (m : Holepunch) : List UInt8 :=
  uintBytes m.flags.val ++ (uintBytes m.mode.val ++ (uintBytes m.id.val ++
    (bufferBytes m.payload ++ optional addressBytes m.peerAddress)))

theorem flags_one : ∀ a : Bool, let flags : Uint := if a then 1 else 0
    flags.val < 253 ∧ (flags &&& 1 != 0) = a := by decide

theorem exact_holepunch (m : Holepunch) : holepunch.Exact m m.norm ↔ m.mode.val < 253 := by
  obtain ⟨hflags, hpeer⟩ := flags_one m.peerAddress.isSome
  have hone : (uintBytes m.flags.val).length = 1 := length_uintBytes_eq_one.mpr hflags
  have hr : Reserves (holepunch.preencode m) (2 + ((uintBytes m.id.val).length +
      ((bufferBytes m.payload).length + (optional addressBytes m.peerAddress).length))) :=
    (reserves_grow 2).seq ((reserves_uint m.id).seq ((reserves_buffer m.payload).seq
      (reserves_whenSome reserves_address m.peerAddress)))
  have hw : Writes (holepunch.encode m) m.bytes :=
    (writes_uint m.flags).seq ((writes_uint m.mode).seq ((writes_uint m.id).seq
      ((writes_buffer m.payload).seq (writes_whenSome writes_address m.peerAddress))))
  have hd : Reads holepunch.decode m.bytes m.norm :=
    (reads_uint m.flags).bind ((reads_uint m.mode).bind ((reads_uint m.id).bind
      ((reads_buffer m.payload).bind (reads_ifSet reads_address hpeer).done)))
  rw [Codec.exact_iff hr hw hd, ← length_uintBytes_eq_one]
  unfold Holepunch.bytes
  simp only [List.length_append, hone]
  omega

/-- The fields behind the four integers at the front. -/
def HolepunchPayload.fields (m : HolepunchPayload) : List UInt8 :=
  optional (arrayBytes addressBytes) m.addresses ++ (optional addressBytes m.remoteAddress ++
    (optional Subtype.val m.token ++ optional Subtype.val m.remoteToken))

def HolepunchPayload.bytes (m : HolepunchPayload) : List UInt8 :=
  uintBytes m.flags.val ++ (uintBytes m.error.val ++ (uintBytes m.firewall.val ++
    (uintBytes m.round.val ++ m.fields)))

theorem flags_holepunchPayload : ∀ a b c d e f : Bool,
    let flags : Uint := (if a then 1 else 0) ||| (if b then 2 else 0) ||| (if c then 4 else 0) |||
      (if d then 8 else 0) ||| (if e then 16 else 0) ||| (if f then 32 else 0)
    flags.val < 253 ∧ (flags &&& 1 != 0) = a ∧ (flags &&& 2 != 0) = b ∧ (flags &&& 4 != 0) = c ∧
      (flags &&& 8 != 0) = d ∧ (flags &&& 16 != 0) = e ∧ (flags &&& 32 != 0) = f := by decide

theorem reserves_holepunchPayload (m : HolepunchPayload) :
    Reserves (holepunchPayload.preencode m) (4 + m.fields.length) := by
  have hlen : m.fields.length = (optional (arrayBytes addressBytes) m.addresses).length +
      ((if m.remoteAddress.isSome then 6 else 0) + (if m.token.isSome then 32 else 0) +
        (if m.remoteToken.isSome then 32 else 0)) := by
    unfold HolepunchPayload.fields
    simp only [List.length_append, length_optional_ipv4, length_optional_fixed]
    omega
  rw [hlen]
  exact (reserves_grow 4).seq
    ((reserves_whenSome (fun a => (exactAs_ipv4Array a).reserves) m.addresses).seq
      (reserves_grow _))

theorem writes_holepunchPayload (m : HolepunchPayload) :
    Writes (holepunchPayload.encode m) m.bytes :=
  (writes_uint m.flags).seq ((writes_uint m.error).seq ((writes_uint m.firewall).seq
    ((writes_uint m.round).seq
    ((writes_whenSome (fun a => (exactAs_ipv4Array a).writes) m.addresses).seq
    ((writes_whenSome writes_address m.remoteAddress).seq
    ((writes_whenSome writes_fixed m.token).seq (writes_whenSome writes_fixed m.remoteToken)))))))

theorem reads_holepunchPayload (m : HolepunchPayload) :
    Reads holepunchPayload.decode m.bytes m := by
  obtain ⟨-, h₁, h₂, h₃, h₄, h₅, h₆⟩ := flags_holepunchPayload m.connected m.punching
    m.addresses.isSome m.remoteAddress.isSome m.token.isSome m.remoteToken.isSome
  refine ((reads_uint m.flags).bind ((reads_uint m.error).bind ((reads_uint m.firewall).bind
    ((reads_uint m.round).bind
    ((reads_ifSet (fun a => (exactAs_ipv4Array a).reads) h₃).bind
    ((reads_ifSet reads_address h₄).bind
    ((reads_ifSet reads_fixed h₅).bind (reads_ifSet reads_fixed h₆).done))))))).as ?_
  have hconnected : (m.flags &&& 1 != 0) = m.connected := h₁
  have hpunching : (m.flags &&& 2 != 0) = m.punching := h₂
  rw [hconnected, hpunching]

theorem exact_holepunchPayload (m : HolepunchPayload) : holepunchPayload.Exact m m ↔
    m.error.val < 253 ∧ m.firewall.val < 253 ∧ m.round.val < 253 := by
  obtain ⟨hflags, -⟩ := flags_holepunchPayload m.connected m.punching m.addresses.isSome
    m.remoteAddress.isSome m.token.isSome m.remoteToken.isSome
  have hone : (uintBytes m.flags.val).length = 1 := length_uintBytes_eq_one.mpr hflags
  have herror := uintBytes_pos m.error.val
  have hfirewall := uintBytes_pos m.firewall.val
  have hround := uintBytes_pos m.round.val
  rw [Codec.exact_iff (reserves_holepunchPayload m) (writes_holepunchPayload m)
    (reads_holepunchPayload m), ← length_uintBytes_eq_one, ← length_uintBytes_eq_one,
    ← length_uintBytes_eq_one]
  unfold HolepunchPayload.bytes
  simp only [List.length_append, hone]
  omega

/-! ## `peer`, `lookupRawReply` and `announce` -/

def Peer.bytes (m : Peer) : List UInt8 :=
  m.publicKey.val ++ arrayBytes addressBytes m.relayAddresses

theorem exactAs_peer (m : Peer) : peer.ExactAs m m m.bytes where
  reserves := by
    rw [Peer.bytes, List.length_append, m.publicKey.property]
    exact (reserves_grow 32).seq (exactAs_ipv4Array m.relayAddresses).reserves
  writes := (writes_fixed m.publicKey).seq (exactAs_ipv4Array m.relayAddresses).writes
  reads := (reads_fixed m.publicKey).bind (exactAs_ipv4Array m.relayAddresses).reads.done

theorem reads_more {α : Type} {f : Bool → Coder α} {bytes : List UInt8} {a : α}
    (hne : bytes ≠ []) (h : Reads (f true) bytes a) : Reads (more >>= f) bytes a := by
  intro s hs
  have hlen := List.length_pos_of_ne_nil hne
  have hle := hs.length_le
  unfold CodecState.unread at hle
  rw [List.length_drop, List.length_take] at hle
  have hmore : decide (s.start < s.stop) = true := decide_eq_true (by omega)
  have hrun : more.run s = some (true, s) := by
    show some (decide (s.start < s.stop), s) = _
    rw [hmore]
  rw [StateT.run_bind, hrun]
  exact h s hs

/-- The reply is read as the peers its records were made from. -/
theorem exactAs_lookupRawReply {m : LookupRawReply} {ps : Arr Peer}
    (h : m.peers.val.map Subtype.val = ps.val.map Peer.bytes) :
    lookupRawReply.ExactAs m ⟨ps, m.bump⟩
      (arrayBytes Subtype.val m.peers ++ uintBytes m.bump.val) where
  reserves := by
    rw [List.length_append]
    exact (reserves_array fun r _ => reserves_grow _).seq (reserves_uint m.bump)
  writes := (writes_array fun r _ => writes_put _).seq (writes_uint m.bump)
  reads := by
    have hbytes : arrayBytes Subtype.val m.peers = arrayBytes Peer.bytes ps := by
      have hlen := congrArg List.length h
      rw [List.length_map, List.length_map] at hlen
      unfold arrayBytes
      rw [List.flatMap_def, List.flatMap_def, h, hlen]
    have hbump := List.ne_nil_of_length_pos (uintBytes_pos m.bump.val)
    rw [hbytes]
    exact (exactAs_array exactAs_peer ps).reads.bind (reads_more hbump (reads_uint m.bump).done)

def Announce.norm (m : Announce) : Announce := { m with bump := some (m.bump.getD 0) }

/-- The fields behind the flags. -/
def Announce.fields (m : Announce) : List UInt8 :=
  optional Peer.bytes m.peer ++ (optional Subtype.val m.refresh ++
    (optional Subtype.val m.signature ++
      optional (fun n : Uint => uintBytes n.val) (truthy m.bump)))

theorem flags_announce : ∀ a b c d : Bool,
    let flags : Uint := (if a then 1 else 0) ||| (if b then 2 else 0) ||| (if c then 4 else 0) |||
      (if d then 8 else 0)
    flags.val < 253 ∧ (flags &&& 1 != 0) = a ∧ (flags &&& 2 != 0) = b ∧ (flags &&& 4 != 0) = c ∧
      (flags &&& 8 != 0) = d := by decide

theorem getD_truthy (n : Option Uint) : (truthy n).getD 0 = n.getD 0 := by
  cases n with
  | none => rfl
  | some n =>
    by_cases h : n = 0
    · rw [h]
      rfl
    · have hsome : truthy (some n) = some n := by simp [truthy, h]
      rw [hsome]

theorem exactAs_announce (m : Announce) :
    announce.ExactAs m m.norm (uintBytes m.flags.val ++ m.fields) := by
  obtain ⟨hflags, h₁, h₂, h₃, h₄⟩ := flags_announce m.peer.isSome m.refresh.isSome
    m.signature.isSome (truthy m.bump).isSome
  have hone : (uintBytes m.flags.val).length = 1 := length_uintBytes_eq_one.mpr hflags
  constructor
  · have hlen : (uintBytes m.flags.val ++ m.fields).length = 1 +
        ((optional Peer.bytes m.peer).length +
        (((if m.refresh.isSome then 32 else 0) + (if m.signature.isSome then 64 else 0)) +
          (optional (fun n : Uint => uintBytes n.val) (truthy m.bump)).length)) := by
      unfold Announce.fields
      simp only [List.length_append, length_optional_fixed, hone]
      omega
    rw [hlen]
    exact (reserves_grow 1).seq ((reserves_whenSome (fun a => (exactAs_peer a).reserves) m.peer).seq
      ((reserves_grow _).seq (reserves_whenSome reserves_uint (truthy m.bump))))
  · exact (writes_uint m.flags).seq
      ((writes_whenSome (fun a => (exactAs_peer a).writes) m.peer).seq
      ((writes_whenSome writes_fixed m.refresh).seq ((writes_whenSome writes_fixed m.signature).seq
        (writes_whenSome writes_uint (truthy m.bump)))))
  · refine ((reads_uint m.flags).bind
      ((reads_ifSet (fun a => (exactAs_peer a).reads) h₁).bind
      ((reads_ifSet reads_fixed h₂).bind ((reads_ifSet reads_fixed h₃).bind
        (reads_ifSet reads_uint h₄).done)))).as ?_
    rw [getD_truthy]
    rfl

/-! ## `mutablePutRequest`, `mutableGetResponse` and `pluginRequest` -/

def MutablePutRequest.norm (m : MutablePutRequest) : MutablePutRequest :=
  { m with value := nonEmpty m.value }

theorem exactAs_mutablePutRequest {m : MutablePutRequest} (h : m.seq.val < 2 ^ 64) :
    mutablePutRequest.ExactAs m m.norm
      (m.publicKey.val ++ (uintBytes m.seq.val ++ (bufferBytes m.value ++ m.signature.val))) where
  reserves := by
    simp only [List.length_append]
    exact (reserves_fixed m.publicKey).seq ((reserves_number m.seq).seq
      ((reserves_buffer m.value).seq (reserves_fixed m.signature)))
  writes := (writes_fixed m.publicKey).seq ((writes_number m.seq).seq
    ((writes_buffer m.value).seq (writes_fixed m.signature)))
  reads := (reads_fixed m.publicKey).bind ((reads_number h).bind
    ((reads_buffer m.value).bind (reads_fixed m.signature).done))

def MutableGetResponse.norm (m : MutableGetResponse) : MutableGetResponse :=
  { m with value := nonEmpty m.value }

def MutableGetResponse.bytes (m : MutableGetResponse) : List UInt8 :=
  uintBytes m.seq.val ++ (bufferBytes m.value ++ m.signature.val)

theorem reserves_mutableGetResponse (m : MutableGetResponse) :
    Reserves (mutableGetResponse.preencode m) m.bytes.length := by
  simp only [MutableGetResponse.bytes, List.length_append]
  exact (reserves_number m.seq).seq ((reserves_buffer m.value).seq (reserves_fixed m.signature))

theorem writes_mutableGetResponse (m : MutableGetResponse) :
    Writes (mutableGetResponse.encode m) m.bytes :=
  (writes_number m.seq).seq ((writes_buffer m.value).seq (writes_fixed m.signature))

theorem exactAs_mutableGetResponse {m : MutableGetResponse} (h : m.seq.val < 2 ^ 64) :
    mutableGetResponse.ExactAs m m.norm m.bytes where
  reserves := reserves_mutableGetResponse m
  writes := writes_mutableGetResponse m
  reads := (reads_number h).bind ((reads_buffer m.value).bind (reads_fixed m.signature).done)

def PluginRequest.norm (m : PluginRequest) : PluginRequest := { m with value := nonEmpty m.value }

def PluginRequest.flags (m : PluginRequest) : Uint := if m.value.isSome then 1 else 0

theorem exactAs_pluginRequest (m : PluginRequest) : pluginRequest.ExactAs m m.norm
    (stringBytes m.plugin ++ (uintBytes m.version.val ++ (uintBytes m.command.val ++
      (uintBytes m.flags.val ++ optional (fun v => bufferBytes (some v)) m.value)))) := by
  obtain ⟨hflags, hvalue⟩ := flags_one m.value.isSome
  have hone : (uintBytes m.flags.val).length = 1 := length_uintBytes_eq_one.mpr hflags
  constructor
  · simp only [List.length_append, hone]
    exact (reserves_string m.plugin).seq ((reserves_uint m.version).seq
      ((reserves_uint m.command).seq ((reserves_grow 1).seq
        (reserves_whenSome (fun v => reserves_buffer (some v)) m.value))))
  · exact (writes_string m.plugin).seq ((writes_uint m.version).seq ((writes_uint m.command).seq
      ((writes_uint m.flags).seq (writes_whenSome (fun v => writes_buffer (some v)) m.value))))
  · refine ((reads_string m.plugin).bind ((reads_uint m.version).bind ((reads_uint m.command).bind
      ((reads_uint m.flags).bind
        (reads_ifSet_map (fun v => reads_buffer (some v)) hvalue).done)))).as ?_
    have hjoin : (m.value.map fun v => nonEmpty (some v)).join = nonEmpty m.value := by
      cases m.value with
      | none => rfl
      | some v => rfl
    rw [hjoin]
    rfl

end Messages

end HyperDht
