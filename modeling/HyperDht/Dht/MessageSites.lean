import HyperDht.Dht.MessagesExact
import Mathlib.Data.List.Forall2
import Mathlib.Data.List.Induction

/-!
# The messages that are sent

Every call site of the repository that encodes one of the messages, with the values it
passes. Modes, errors and firewalls are constants or one of a few states. The round of a
holepunch payload is not: the client counts it up with every payload, and the server
takes it over from the payloads it decrypts. `Site.encoded_exactly_iff` says which messages are
encoded exactly: all but the payloads of a round from 253 on.
-/

namespace HyperDht.Messages

open CompactEncoding

/-- `ERROR`, as far as handshakes and holepunches use it. -/
inductive ErrorCode where
  | none
  | aborted
  | versionMismatch
  | tryLater
deriving DecidableEq

def ErrorCode.code : ErrorCode → Uint
  | none => 0
  | aborted => 1
  | versionMismatch => 2
  | tryLater => 3

inductive Firewall where
  | unknown
  | opened
  | consistent
  | random
deriving DecidableEq

def Firewall.code : Firewall → Uint
  | unknown => 0
  | opened => 1
  | consistent => 2
  | random => 3

theorem ErrorCode.code_lt (e : ErrorCode) : e.code.val < 253 := by cases e <;> decide

theorem Firewall.code_lt (f : Firewall) : f.code.val < 253 := by cases f <;> decide

/-! ## The router -/

namespace Router

def fromClient : Uint := 0

def fromServer : Uint := 1

def fromRelay : Uint := 2

def fromSecondRelay : Uint := 3

def reply : Uint := 4

def peerHandshake (noise : Option Buffer) (peerAddress relayAddress : Option Ipv4) : Handshake where
  mode := fromClient
  noise := noise
  peerAddress := peerAddress
  relayAddress := relayAddress

/-- What `onpeerhandshake` sends for a request of `sender`. The server's answer to the noise is
`answer`, `relay` is the node the target is known through. -/
def onpeerhandshake (isServer : Bool) (relay : Option Ipv4) (answer : Option Buffer) (sender : Ipv4)
    (hs : Handshake) : Option Handshake :=
  if isServer then
    match hs.noise, answer with
    | some _, some noise =>
      if hs.mode = fromClient then some ⟨reply, some noise, none, none⟩
      else if hs.mode = fromRelay then some ⟨fromServer, some noise, hs.peerAddress, none⟩
      else if hs.mode = fromSecondRelay ∧ hs.relayAddress.isSome then
        some ⟨fromServer, some noise, hs.peerAddress, none⟩
      else none
    | _, _ => none
  else if hs.noise.isNone then none
  else if hs.mode = fromClient then
    if relay.isNone ∧ hs.relayAddress.isNone then none
    else some ⟨fromRelay, hs.noise, some sender, none⟩
  else if hs.mode = fromRelay then
    if relay.isNone then none else some ⟨fromSecondRelay, hs.noise, hs.peerAddress, some sender⟩
  else if hs.mode = fromServer then
    if hs.peerAddress.isNone then none else some ⟨reply, hs.noise, some sender, none⟩
  else none

def peerHolepunch (id : Uint) (payload : Buffer) (peerAddress : Option Ipv4) : Holepunch where
  mode := fromClient
  id := id
  payload := some payload
  peerAddress := peerAddress

/-- What `onpeerholepunch` sends for a request of `sender`; `answer` is the server's payload. -/
def onpeerholepunch (isServer : Bool) (relay : Option Ipv4) (answer : Option Buffer) (sender : Ipv4)
    (hp : Holepunch) : Option Holepunch :=
  if hp.mode = fromClient then
    if hp.peerAddress.isNone ∧ relay.isNone then none
    else some ⟨fromRelay, hp.id, hp.payload, some sender⟩
  else if hp.mode = fromRelay then
    if isServer = false ∨ hp.peerAddress.isNone then none
    else
      match answer with
      | none => none
      | some payload => some ⟨fromServer, 0, some payload, hp.peerAddress⟩
  else if hp.mode = fromServer then some ⟨reply, hp.id, hp.payload, some sender⟩
  else none

theorem fromClient_lt : fromClient.val < 253 := by decide

theorem mode_onpeerhandshake {isServer : Bool} {relay : Option Ipv4} {answer : Option Buffer}
    {sender : Ipv4} {hs m : Handshake}
    (h : onpeerhandshake isServer relay answer sender hs = some m) : m.mode.val < 253 := by
  have hmodes : m.mode = reply ∨ m.mode = fromServer ∨ m.mode = fromRelay ∨
      m.mode = fromSecondRelay := by
    unfold onpeerhandshake at h
    grind
  rcases hmodes with he | he | he | he <;> rw [he] <;> decide

theorem mode_onpeerholepunch {isServer : Bool} {relay : Option Ipv4} {answer : Option Buffer}
    {sender : Ipv4} {hp m : Holepunch}
    (h : onpeerholepunch isServer relay answer sender hp = some m) : m.mode.val < 253 := by
  have hmodes : m.mode = reply ∨ m.mode = fromServer ∨ m.mode = fromRelay := by
    unfold onpeerholepunch at h
    grind
  rcases hmodes with he | he | he <;> rw [he] <;> decide

end Router

/-! ## The noise payloads -/

/-- `connectThroughNode`; `addresses4` is the remote address of the node and its local ones. -/
def connectThroughNode (remoteAddress : Option Ipv4) (addresses4 : Arr Ipv4) (reusableSocket : Bool)
    (streamId : Uint) (relayThrough : Option RelayThroughInfo) : NoisePayload where
  error := ErrorCode.none.code
  firewall := if remoteAddress.isSome then Firewall.opened.code else Firewall.unknown.code
  holepunch := none
  addresses4 := some addresses4
  addresses6 := some empty
  udx := some { reusableSocket, id := streamId, seq := 0 }
  secretStream := some {}
  relayThrough := relayThrough
  relayAddresses := none

def addHandshake (error : ErrorCode) (remoteAddress : Option Ipv4) (addresses4 : Arr Ipv4)
    (id : Uint) (relays : Arr RelayInfo) (reusableSocket : Bool) (streamId : Option Uint)
    (relayThrough : Option RelayThroughInfo) (relayAddresses : Arr Ipv4) : NoisePayload where
  error := error.code
  firewall := if remoteAddress.isSome then Firewall.opened.code else Firewall.unknown.code
  holepunch := if remoteAddress.isSome then none else some { id, relays }
  addresses4 := some addresses4
  addresses6 := none
  udx := some { reusableSocket, id := streamId.getD 0, seq := 0 }
  secretStream := some {}
  relayThrough := relayThrough
  relayAddresses := nonEmpty (some relayAddresses)

/-! ## The holepunch payloads of the client -/

/-- `nat.firewall` and `nat.addresses` of the puncher. -/
structure NatView where
  firewall : Firewall
  addresses : Option (Arr Ipv4)
deriving DecidableEq

/-- The payloads that `connect.js` hands to `updateHolepunch`. -/
inductive ClientPayload where
  | probe (nat : NatView) (serverAddress : Option Ipv4)
  | delayed (nat : NatView) (token : Fixed 32) (remoteToken : Option (Fixed 32))
  | punch (nat : NatView) (token : Option (Fixed 32)) (remoteToken : Option (Fixed 32))
  | abort
deriving DecidableEq

def ClientPayload.build (round : Uint) : ClientPayload → HolepunchPayload
  | probe nat serverAddress =>
    ⟨ErrorCode.none.code, nat.firewall.code, round, false, false, nat.addresses, serverAddress, none, none⟩
  | delayed nat token remoteToken =>
    ⟨ErrorCode.none.code, nat.firewall.code, round, false, false, nat.addresses, none, some token,
      remoteToken⟩
  | punch nat token remoteToken =>
    ⟨ErrorCode.none.code, nat.firewall.code, round, false, true, nat.addresses, none, token, remoteToken⟩
  | abort =>
    ⟨ErrorCode.aborted.code, Firewall.unknown.code, round, false, false, none, none, none, none⟩

/-- `n++`; from `2^53` on the sum rounds back. -/
def increment (n : Uint) : Uint := ⟨min (n.val + 1) (2 ^ 53), by omega⟩

/-- `c.round` when the payloads before are built. -/
def clientRound (before : List ClientPayload) : Uint := before.foldl (fun round _ => increment round) 0

theorem clientRound_lt_iff (before : List ClientPayload) :
    (clientRound before).val < 253 ↔ before.length < 253 := by
  have hround : (clientRound before).val = min before.length (2 ^ 53) := by
    unfold clientRound
    induction before using List.reverseRecOn with
    | nil => rfl
    | append_singleton before p ih =>
      rw [List.foldl_append, List.length_append, List.length_singleton]
      show min ((before.foldl _ 0 : Uint).val + 1) (2 ^ 53) = _
      rw [ih]
      omega
  rw [hround]
  omega

/-! ## The holepunch payloads of the server -/

/-- A call of `_onpeerholepunch` that waits: its `isServerRelay ? token : null` and the token
of the remote payload. -/
structure PendingReply where
  token : Option (Fixed 32)
  remoteToken : Option (Fixed 32)
deriving DecidableEq

/-- A handshake `h` of the server, as far as its holepunch payloads go. -/
structure HolepunchSession where
  round : Uint := 0
  pending : List PendingReply := []
deriving DecidableEq

/-- How a waiting call ends: `null`, `_abort(h, error)`, or a payload of the puncher's state. -/
inductive Outcome where
  | gone
  | abort (error : ErrorCode)
  | answer (error : ErrorCode) (nat : NatView) (connected punching : Bool)
deriving DecidableEq

inductive ServerEvent where
  /-- A holepunch arrives: is `h.payload` there, is the puncher's socket, what `decrypt` returns. -/
  | request (opened ready : Bool) (remote : Option HolepunchPayload) (token : Option (Fixed 32))
  | settle (i : Nat) (outcome : Outcome)
deriving DecidableEq

namespace HolepunchSession

/-- The payload of `_abort`. -/
def abortPayload (h : HolepunchSession) (error : ErrorCode) : HolepunchPayload :=
  ⟨error.code, Firewall.unknown.code, h.round, false, false, none, none, none, none⟩

/-- `if (round >= h.round) h.round = round`. -/
def adopt (h : HolepunchSession) (round : Uint) : HolepunchSession :=
  if h.round ≤ round then { h with round } else h

/-- `_onpeerholepunch` up to its first `await`. -/
def request (h : HolepunchSession) (opened ready : Bool) (remote : Option HolepunchPayload)
    (token : Option (Fixed 32)) : HolepunchSession × Option HolepunchPayload :=
  if opened = false then (h, none)
  else
    match remote with
    | none => (h, none)
    | some m =>
      if ready = false then (h, some (h.abortPayload .aborted))
      else if m.error ≠ ErrorCode.none.code then
        (h.adopt m.round, some ((h.adopt m.round).abortPayload .aborted))
      else ({ h.adopt m.round with pending := (h.adopt m.round).pending ++ [⟨token, m.token⟩] }, none)

/-- The end of a call that waited; other calls may have moved the round meanwhile. -/
def settle (h : HolepunchSession) (i : Nat) (outcome : Outcome) :
    HolepunchSession × Option HolepunchPayload :=
  match h.pending[i]? with
  | none => (h, none)
  | some p =>
    ({ h with pending := h.pending.eraseIdx i },
      match outcome with
      | .gone => none
      | .abort error => some (h.abortPayload error)
      | .answer error nat connected punching =>
        some ⟨error.code, nat.firewall.code, h.round, connected, punching, nat.addresses, none,
          p.token, p.remoteToken⟩)

def step (h : HolepunchSession) : ServerEvent → HolepunchSession × Option HolepunchPayload
  | .request opened ready remote token => h.request opened ready remote token
  | .settle i outcome => h.settle i outcome

def run (events : List ServerEvent) : HolepunchSession :=
  events.foldl (fun h e => (h.step e).1) {}

end HolepunchSession

/-- The round of the remote payload, where the server compares it with its own. -/
def ServerEvent.compared : ServerEvent → Option Uint
  | request true true (some m) _ => some m.round
  | _ => none

namespace HolepunchSession

theorem round_adopt (h : HolepunchSession) (round : Uint) :
    (h.adopt round).round.val = max h.round.val round.val := by
  unfold adopt
  split
  · next hle =>
    have hle : h.round.val ≤ round.val := hle
    show round.val = _
    omega
  · next hle =>
    have hlt : ¬h.round.val ≤ round.val := hle
    omega

/-- One step takes the compared round, if that is later. -/
theorem round_step (h : HolepunchSession) (e : ServerEvent) (n : Nat) :
    (h.step e).1.round.val < n ↔ h.round.val < n ∧ ∀ r ∈ e.compared, r.val < n := by
  cases e with
  | settle i outcome =>
    have hround : (h.settle i outcome).1.round = h.round := by
      unfold settle
      split <;> rfl
    show (h.settle i outcome).1.round.val < n ↔ _
    rw [hround]
    simp [ServerEvent.compared]
  | request opened ready remote token =>
    show (h.request opened ready remote token).1.round.val < n ↔ _
    unfold request
    cases opened with
    | false => simp [ServerEvent.compared]
    | true =>
      cases remote with
      | none => simp [ServerEvent.compared]
      | some m =>
        cases ready with
        | false => simp [ServerEvent.compared]
        | true =>
          have hmax := h.round_adopt m.round
          have hcompared : (∀ r ∈ (ServerEvent.request true true (some m) token).compared,
              r.val < n) ↔ m.round.val < n := by simp [ServerEvent.compared]
          rw [hcompared]
          dsimp only
          split
          · contradiction
          · split
            · rw [hmax]
              omega
            · show (h.adopt m.round).round.val < n ↔ _
              rw [hmax]
              omega

theorem round_run (events : List ServerEvent) {n : Nat} (hn : 0 < n) :
    (run events).round.val < n ↔ ∀ r ∈ events.filterMap ServerEvent.compared, r.val < n := by
  induction events using List.reverseRecOn with
  | nil => exact iff_of_true hn fun r hr => (List.not_mem_nil hr).elim
  | append_singleton events e ih =>
    have hrun : run (events ++ [e]) = ((run events).step e).1 := by
      unfold run
      rw [List.foldl_append]
      rfl
    rw [hrun, round_step, ih, List.filterMap_append]
    simp only [List.mem_append, or_imp, forall_and]
    refine and_congr_right fun _ => ?_
    cases hc : e.compared with
    | none => simp [hc]
    | some r => simp [hc]

/-- A payload carries the round of the state it leaves behind, a known error and firewall. -/
theorem payload_step {h : HolepunchSession} {e : ServerEvent} {m : HolepunchPayload}
    (hm : (h.step e).2 = some m) :
    m.round = (h.step e).1.round ∧ m.error.val < 253 ∧ m.firewall.val < 253 := by
  have habort : ∀ (h : HolepunchSession) (error : ErrorCode),
      (h.abortPayload error).round = h.round ∧ (h.abortPayload error).error.val < 253 ∧
        (h.abortPayload error).firewall.val < 253 := fun h error =>
    ⟨rfl, error.code_lt, Firewall.unknown.code_lt⟩
  cases e with
  | settle i outcome =>
    change (h.settle i outcome).2 = some m at hm
    show m.round = (h.settle i outcome).1.round ∧ _
    unfold settle at hm ⊢
    cases hp : h.pending[i]? with
    | none =>
      rw [hp] at hm
      cases hm
    | some p =>
      rw [hp] at hm
      cases outcome with
      | gone => cases hm
      | abort error =>
        obtain rfl := Option.some.inj hm
        exact habort h error
      | answer error nat connected punching =>
        obtain rfl := Option.some.inj hm
        exact ⟨rfl, error.code_lt, nat.firewall.code_lt⟩
  | request opened ready remote token =>
    change (h.request opened ready remote token).2 = some m at hm
    show m.round = (h.request opened ready remote token).1.round ∧ _
    unfold request at hm ⊢
    split at hm
    · cases hm
    · next ho =>
      rw [if_neg ho]
      cases remote with
      | none => cases hm
      | some r =>
        dsimp only at hm ⊢
        split at hm
        · next hready =>
          obtain rfl := Option.some.inj hm
          rw [if_pos hready]
          exact habort h .aborted
        · next hready =>
          rw [if_neg hready]
          split at hm
          · next herror =>
            obtain rfl := Option.some.inj hm
            rw [if_pos herror]
            exact habort _ .aborted
          · cases hm

end HolepunchSession

/-! ## The call sites -/

inductive Message where
  | handshake (m : Handshake)
  | noisePayload (m : NoisePayload)
  | holepunch (m : Holepunch)
  | holepunchPayload (m : HolepunchPayload)
  | peer (m : Peer)
  | lookupRawReply (m : LookupRawReply)
  | announce (m : Announce)
  | mutablePutRequest (m : MutablePutRequest)
  | mutableGetResponse (m : MutableGetResponse)
  | pluginRequest (m : PluginRequest)
deriving DecidableEq

/-- `encodeUnslab(m.peer, p)` returned the bytes. -/
def EncodedPeer (r : Buffer) (p : Peer) : Prop := ∃ alloc, peer.run alloc p = some r.val

/-- The encoder fills just what it reserved, and the decoder inverts it up to absent fields. -/
def Message.Exact : Message → Prop
  | .handshake m => Messages.handshake.Exact m m.norm
  | .noisePayload m => Messages.noisePayload.Exact m m.norm
  | .holepunch m => Messages.holepunch.Exact m m.norm
  | .holepunchPayload m => Messages.holepunchPayload.Exact m m
  | .peer m => Messages.peer.Exact m m
  | .lookupRawReply m => ∃ ps : Arr Peer, List.Forall₂ EncodedPeer m.peers.val ps.val ∧
      Messages.lookupRawReply.Exact m ⟨ps, m.bump⟩
  | .announce m => Messages.announce.Exact m m.norm
  | .mutablePutRequest m => Messages.mutablePutRequest.Exact m m.norm
  | .mutableGetResponse m => Messages.mutableGetResponse.Exact m m.norm
  | .pluginRequest m => Messages.pluginRequest.Exact m m.norm

/-- A stored record: the bytes `encodeUnslab(m.peer, p)` returned. -/
abbrev Record : Type := { r : Buffer // ∃ p, EncodedPeer r p }

/-- The records of a reply as they are passed on. -/
def rawRecords (records : Arr Record) : Arr Buffer :=
  ⟨records.val.map Subtype.val, by rw [List.length_map]; exact records.property⟩

/-- One call of an encoder, with what it depends on. -/
inductive Site where
  | peerHandshake (noise : Option Buffer) (peerAddress relayAddress : Option Ipv4)
  | onpeerhandshake (isServer : Bool) (relay : Option Ipv4) (answer : Option Buffer) (sender : Ipv4)
      (hs : Handshake)
  | connectThroughNode (remoteAddress : Option Ipv4) (addresses4 : Arr Ipv4)
      (reusableSocket : Bool) (streamId : Uint) (relayThrough : Option RelayThroughInfo)
  | addHandshake (error : ErrorCode) (remoteAddress : Option Ipv4) (addresses4 : Arr Ipv4)
      (id : Uint) (relays : Arr RelayInfo) (reusableSocket : Bool) (streamId : Option Uint)
      (relayThrough : Option RelayThroughInfo) (relayAddresses : Arr Ipv4)
  | peerHolepunch (id : Uint) (payload : Buffer) (peerAddress : Option Ipv4)
  | onpeerholepunch (isServer : Bool) (relay : Option Ipv4) (answer : Option Buffer) (sender : Ipv4)
      (hp : Holepunch)
  | updateHolepunch (before : List ClientPayload) (payload : ClientPayload)
  | serverHolepunch (before : List ServerEvent) (e : ServerEvent)
  /-- The announcer's own record. -/
  | announcerRecord (publicKey : Fixed 32)
  /-- `annSignable` of a peer, local or announced. -/
  | annSignable (p : Peer)
  /-- `onannounce`, which keeps three relay addresses. -/
  | onannounce (p : Peer)
  | onlookup (records : Arr Record) (bump : Uint)
  /-- The announcer's `_commit` and `_unannounce`. -/
  | announcerCommit (publicKey : Fixed 32) (signature : Fixed 64)
  | requestAnnounce (publicKey : Fixed 32) (relayAddresses : Option (Arr Ipv4))
      (signature : Fixed 64) (bump : Option Uint)
  | requestUnannounce (publicKey : Fixed 32) (signature : Fixed 64)
  | mutablePut (publicKey : Fixed 32) (seq : Uint) (value : Option Buffer) (signature : Fixed 64)
  | onmutableput (seq : Uint) (value : Buffer) (signature : Fixed 64)
  | pluginRequest (name : Text) (version command : Uint) (value : Option Buffer)

/-- The message that is encoded, if the call gets that far. -/
def Site.message : Site → Option Message
  | .peerHandshake noise peerAddress relayAddress =>
    some (.handshake (Router.peerHandshake noise peerAddress relayAddress))
  | .onpeerhandshake isServer relay answer sender hs =>
    (Router.onpeerhandshake isServer relay answer sender hs).map .handshake
  | .connectThroughNode remoteAddress addresses4 reusableSocket streamId relayThrough =>
    some (.noisePayload
      (Messages.connectThroughNode remoteAddress addresses4 reusableSocket streamId relayThrough))
  | .addHandshake error remoteAddress addresses4 id relays reusableSocket streamId relayThrough
      relayAddresses =>
    some (.noisePayload (Messages.addHandshake error remoteAddress addresses4 id relays
      reusableSocket streamId relayThrough relayAddresses))
  | .peerHolepunch id payload peerAddress =>
    some (.holepunch (Router.peerHolepunch id payload peerAddress))
  | .onpeerholepunch isServer relay answer sender hp =>
    (Router.onpeerholepunch isServer relay answer sender hp).map .holepunch
  | .updateHolepunch before payload =>
    some (.holepunchPayload (payload.build (clientRound before)))
  | .serverHolepunch before e =>
    ((HolepunchSession.run before).step e).2.map .holepunchPayload
  | .announcerRecord publicKey => some (.peer ⟨publicKey, empty⟩)
  | .annSignable p => some (.peer p)
  | .onannounce p => some (.peer { p with relayAddresses := p.relayAddresses.take 3 })
  | .onlookup records bump =>
    if records.val = [] then none else some (.lookupRawReply ⟨rawRecords records, bump⟩)
  | .announcerCommit publicKey signature =>
    some (.announce ⟨some ⟨publicKey, empty⟩, none, some signature, none⟩)
  | .requestAnnounce publicKey relayAddresses signature bump =>
    some (.announce ⟨some ⟨publicKey, relayAddresses.getD empty⟩, none, some signature, bump⟩)
  | .requestUnannounce publicKey signature =>
    some (.announce ⟨some ⟨publicKey, empty⟩, none, some signature, none⟩)
  | .mutablePut publicKey seq value signature =>
    some (.mutablePutRequest ⟨publicKey, seq.toDouble, value, signature⟩)
  | .onmutableput seq value signature =>
    some (.mutableGetResponse ⟨seq.toDouble, some value, signature⟩)
  | .pluginRequest name version command value =>
    some (.pluginRequest ⟨name, version, command, value⟩)

/-- No round of 253 or more has come up: the client has built fewer than 253 payloads before,
or the server has compared its round with smaller ones only. -/
def Site.RoundsFit : Site → Prop
  | .updateHolepunch before _ => before.length < 253
  | .serverHolepunch before e =>
    ∀ r ∈ (before ++ [e]).filterMap ServerEvent.compared, r.val < 253
  | _ => True

/-- A record reads back as the peer it was made from. -/
theorem EncodedPeer.bytes_eq {r : Buffer} {p : Peer} (h : EncodedPeer r p) : r.val = p.bytes := by
  obtain ⟨alloc, h⟩ := h
  exact Option.some.inj (h.symm.trans ((exactAs_peer p).run alloc))

theorem map_bytes {rs : List Buffer} {ps : List Peer} (h : List.Forall₂ EncodedPeer rs ps) :
    rs.map Subtype.val = ps.map Peer.bytes := by
  induction h with
  | nil => rfl
  | cons h _ ih => rw [List.map_cons, List.map_cons, h.bytes_eq, ih]

theorem exists_peers : ∀ records : List Record,
    ∃ ps : List Peer, List.Forall₂ EncodedPeer (records.map Subtype.val) ps
  | [] => ⟨[], .nil⟩
  | r :: records => by
    obtain ⟨ps, hps⟩ := exists_peers records
    obtain ⟨p, hp⟩ := r.property
    exact ⟨p :: ps, .cons hp hps⟩

theorem exact_onlookup (records : Arr Record) (bump : Uint) :
    (Message.lookupRawReply ⟨rawRecords records, bump⟩).Exact := by
  obtain ⟨ps, hps⟩ := exists_peers records.val
  have hlen : ps.length < 2 ^ 53 + 1 := by
    rw [← hps.length_eq]
    exact (rawRecords records).property
  have hbytes : (rawRecords records).val.map Subtype.val = ps.map Peer.bytes := map_bytes hps
  exact ⟨⟨ps, hlen⟩, hps, (exactAs_lookupRawReply hbytes).exact⟩

/-- The messages that are sent are encoded exactly, but for the holepunch payloads of a round
from 253 on. -/
theorem Site.encoded_exactly_iff (site : Site) (m : Message) (h : site.message = some m) :
    m.Exact ↔ site.RoundsFit := by
  cases site with
  | peerHandshake noise peerAddress relayAddress =>
    obtain rfl := Option.some.inj h
    exact iff_of_true ((exact_handshake _).mpr Router.fromClient_lt) trivial
  | onpeerhandshake isServer relay answer sender hs =>
    obtain ⟨hs', hs', rfl⟩ := Option.map_eq_some_iff.mp h
    exact iff_of_true ((exact_handshake _).mpr (Router.mode_onpeerhandshake hs')) trivial
  | connectThroughNode remoteAddress addresses4 reusableSocket streamId relayThrough =>
    obtain rfl := Option.some.inj h
    have hfirewall : (Messages.connectThroughNode remoteAddress addresses4 reusableSocket streamId
        relayThrough).firewall.val < 253 := by
      unfold Messages.connectThroughNode
      dsimp only
      split <;> exact Firewall.code_lt _
    exact iff_of_true ((exact_noisePayload _).mpr ⟨ErrorCode.none.code_lt, hfirewall⟩) trivial
  | addHandshake error remoteAddress addresses4 id relays reusableSocket streamId relayThrough
      relayAddresses =>
    obtain rfl := Option.some.inj h
    have hfirewall : (Messages.addHandshake error remoteAddress addresses4 id relays
        reusableSocket streamId relayThrough relayAddresses).firewall.val < 253 := by
      unfold Messages.addHandshake
      dsimp only
      split <;> exact Firewall.code_lt _
    exact iff_of_true ((exact_noisePayload _).mpr ⟨error.code_lt, hfirewall⟩) trivial
  | peerHolepunch id payload peerAddress =>
    obtain rfl := Option.some.inj h
    exact iff_of_true ((exact_holepunch _).mpr Router.fromClient_lt) trivial
  | onpeerholepunch isServer relay answer sender hp =>
    obtain ⟨hp', hp', rfl⟩ := Option.map_eq_some_iff.mp h
    exact iff_of_true ((exact_holepunch _).mpr (Router.mode_onpeerholepunch hp')) trivial
  | updateHolepunch before payload =>
    obtain rfl := Option.some.inj h
    have hfields : (payload.build (clientRound before)).error.val < 253 ∧
        (payload.build (clientRound before)).firewall.val < 253 ∧
        (payload.build (clientRound before)).round = clientRound before := by
      cases payload with
      | probe nat _ => exact ⟨ErrorCode.none.code_lt, nat.firewall.code_lt, rfl⟩
      | delayed nat _ _ => exact ⟨ErrorCode.none.code_lt, nat.firewall.code_lt, rfl⟩
      | punch nat _ _ => exact ⟨ErrorCode.none.code_lt, nat.firewall.code_lt, rfl⟩
      | abort => exact ⟨ErrorCode.aborted.code_lt, Firewall.unknown.code_lt, rfl⟩
    obtain ⟨herror, hfirewall, hround⟩ := hfields
    refine (exact_holepunchPayload _).trans ?_
    rw [hround, clientRound_lt_iff]
    exact ⟨fun h => h.2.2, fun h => ⟨herror, hfirewall, h⟩⟩
  | serverHolepunch before e =>
    obtain ⟨payload, hp, rfl⟩ := Option.map_eq_some_iff.mp h
    obtain ⟨hround, herror, hfirewall⟩ := HolepunchSession.payload_step hp
    have hrun : HolepunchSession.run (before ++ [e]) =
        ((HolepunchSession.run before).step e).1 := by
      unfold HolepunchSession.run
      rw [List.foldl_append]
      rfl
    refine (exact_holepunchPayload _).trans ?_
    rw [hround, ← hrun, HolepunchSession.round_run _ (by decide)]
    exact ⟨fun h => h.2.2, fun h => ⟨herror, hfirewall, h⟩⟩
  | announcerRecord publicKey =>
    obtain rfl := Option.some.inj h
    exact iff_of_true (exactAs_peer _).exact trivial
  | annSignable p =>
    obtain rfl := Option.some.inj h
    exact iff_of_true (exactAs_peer _).exact trivial
  | onannounce p =>
    obtain rfl := Option.some.inj h
    exact iff_of_true (exactAs_peer _).exact trivial
  | onlookup records bump =>
    rw [Site.message] at h
    split at h
    · cases h
    · obtain rfl := Option.some.inj h
      exact iff_of_true (exact_onlookup records bump) trivial
  | announcerCommit publicKey signature =>
    obtain rfl := Option.some.inj h
    exact iff_of_true (exactAs_announce _).exact trivial
  | requestAnnounce publicKey relayAddresses signature bump =>
    obtain rfl := Option.some.inj h
    exact iff_of_true (exactAs_announce _).exact trivial
  | requestUnannounce publicKey signature =>
    obtain rfl := Option.some.inj h
    exact iff_of_true (exactAs_announce _).exact trivial
  | mutablePut publicKey seq value signature =>
    obtain rfl := Option.some.inj h
    exact iff_of_true (exactAs_mutablePutRequest seq.toDouble_lt).exact trivial
  | onmutableput seq value signature =>
    obtain rfl := Option.some.inj h
    exact iff_of_true (exactAs_mutableGetResponse seq.toDouble_lt).exact trivial
  | pluginRequest name version command value =>
    obtain rfl := Option.some.inj h
    exact iff_of_true (exactAs_pluginRequest _).exact trivial

/-- The server answers a remote payload of a round. -/
def serverReply (round : Uint) : Site :=
  .serverHolepunch [.request true true
    (some ⟨ErrorCode.none.code, Firewall.consistent.code, round, false, true, none, none, none, none⟩)
      none] (.settle 0 (.answer .none ⟨.consistent, none⟩ false true))

theorem exact_serverReply : ∃ m, (serverReply 252).message = some m ∧ m.Exact := by
  refine ⟨_, rfl, (Site.encoded_exactly_iff (serverReply 252) _ rfl).mpr ?_⟩
  intro r hr
  obtain rfl : r = 252 := by simpa [ServerEvent.compared] using hr
  exact (by decide : 252 < 253)

/-- A remote payload of round 253 makes the server write past what it reserved. -/
theorem not_exact_serverReply : ¬∀ (site : Site) (m : Message), site.message = some m → m.Exact := by
  intro h
  have hexact := (exact_holepunchPayload _).mp (h (serverReply 253) _ rfl)
  exact absurd hexact.2.2 (by decide)

end HyperDht.Messages
