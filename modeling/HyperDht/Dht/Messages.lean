import HyperDht.Lib.CompactEncoding

/-!
# The messages of `lib/messages.js`

The codecs of the wire, each with its three passes as the source has them: `preencode`
reserves, `encode` writes, `decode` reads. A field that a message may lack is an
`Option`, and its flag is computed where the source does.
-/

namespace HyperDht.Messages

open CompactEncoding

abbrev Ipv4 : Type := Address 4

abbrev Ipv6 : Type := Address 16

def ipv4 : Codec Ipv4 Ipv4 := address 4

def ipv4Array : Codec (Arr Ipv4) (Arr Ipv4) := array ipv4

def ipv6 : Codec Ipv6 Ipv6 := address 16

def ipv6Array : Codec (Arr Ipv6) (Arr Ipv6) := array ipv6

/-! ## `handshake` -/

structure Handshake where
  mode : Uint
  noise : Option Buffer
  peerAddress : Option Ipv4
  relayAddress : Option Ipv4
deriving DecidableEq

def Handshake.flags (m : Handshake) : Uint :=
  (if m.peerAddress.isSome then 1 else 0) ||| (if m.relayAddress.isSome then 2 else 0)

def handshake : Codec Handshake Handshake where
  preencode m := do
    grow (1 + 1 + (if m.peerAddress.isSome then 6 else 0) + (if m.relayAddress.isSome then 6 else 0))
    buffer.preencode m.noise
  encode m := do
    uint.encode m.flags
    uint.encode m.mode
    buffer.encode m.noise
    whenSome m.peerAddress ipv4.encode
    whenSome m.relayAddress ipv4.encode
  decode := do
    let flags ← uint.decode
    let mode ← uint.decode
    let noise ← buffer.decode
    let peerAddress ← ifSet (flags &&& 1 != 0) ipv4.decode
    let relayAddress ← ifSet (flags &&& 2 != 0) ipv4.decode
    pure { mode, noise, peerAddress, relayAddress }

/-! ## `noisePayload` -/

structure RelayInfo where
  relayAddress : Ipv4
  peerAddress : Ipv4
deriving DecidableEq

def relayInfo : Codec RelayInfo RelayInfo where
  preencode _ := grow 12
  encode m := do
    ipv4.encode m.relayAddress
    ipv4.encode m.peerAddress
  decode := do
    let relayAddress ← ipv4.decode
    let peerAddress ← ipv4.decode
    pure { relayAddress, peerAddress }

def relayInfoArray : Codec (Arr RelayInfo) (Arr RelayInfo) := array relayInfo

structure HolepunchInfo where
  id : Uint
  relays : Arr RelayInfo
deriving DecidableEq

def holepunchInfo : Codec HolepunchInfo HolepunchInfo where
  preencode m := do
    uint.preencode m.id
    relayInfoArray.preencode m.relays
  encode m := do
    uint.encode m.id
    relayInfoArray.encode m.relays
  decode := do
    let id ← uint.decode
    let relays ← relayInfoArray.decode
    pure { id, relays }

/-- The encoder writes version 1 whatever the message says. -/
structure UdxInfo where
  version : Uint := 1
  reusableSocket : Bool
  id : Uint
  seq : Uint
deriving DecidableEq

def udxInfo : Codec UdxInfo UdxInfo where
  preencode m := do
    grow 2
    uint.preencode m.id
    uint.preencode m.seq
  encode m := do
    uint.encode 1
    uint.encode (if m.reusableSocket then 1 else 0)
    uint.encode m.id
    uint.encode m.seq
  decode := do
    let version ← uint.decode
    let features ← uint.decode
    let id ← uint.decode
    let seq ← uint.decode
    pure { version, reusableSocket := features &&& 1 != 0, id, seq }

structure SecretStreamInfo where
  version : Uint := 1
deriving DecidableEq

def secretStreamInfo : Codec SecretStreamInfo SecretStreamInfo where
  preencode _ := uint.preencode 1
  encode _ := uint.encode 1
  decode := do
    let version ← uint.decode
    pure { version }

structure RelayThroughInfo where
  version : Uint := 1
  publicKey : Fixed 32
  token : Fixed 32
deriving DecidableEq

def relayThroughInfo : Codec RelayThroughInfo RelayThroughInfo where
  preencode m := do
    uint.preencode 1
    uint.preencode 0
    (fixed 32).preencode m.publicKey
    (fixed 32).preencode m.token
  encode m := do
    uint.encode 1
    uint.encode 0
    (fixed 32).encode m.publicKey
    (fixed 32).encode m.token
  decode := do
    let version ← uint.decode
    let _ ← uint.decode
    let publicKey ← (fixed 32).decode
    let token ← (fixed 32).decode
    pure { version, publicKey, token }

structure NoisePayload where
  version : Uint := 1
  error : Uint
  firewall : Uint
  holepunch : Option HolepunchInfo
  addresses4 : Option (Arr Ipv4)
  addresses6 : Option (Arr Ipv6)
  udx : Option UdxInfo
  secretStream : Option SecretStreamInfo
  relayThrough : Option RelayThroughInfo
  relayAddresses : Option (Arr Ipv4)
deriving DecidableEq

def NoisePayload.flags (m : NoisePayload) : Uint :=
  (if m.holepunch.isSome then 1 else 0) ||| (if (nonEmpty m.addresses4).isSome then 2 else 0) |||
    (if (nonEmpty m.addresses6).isSome then 4 else 0) ||| (if m.udx.isSome then 8 else 0) |||
    (if m.secretStream.isSome then 16 else 0) ||| (if m.relayThrough.isSome then 32 else 0) |||
    (if m.relayAddresses.isSome then 64 else 0)

/-- The payload of another version, handed back so that the caller can act on it. -/
def undecoded (version : Uint) : NoisePayload where
  version := version
  error := 0
  firewall := 0
  holepunch := none
  addresses4 := some empty
  addresses6 := some empty
  udx := none
  secretStream := none
  relayThrough := none
  relayAddresses := none

def noisePayload : Codec NoisePayload NoisePayload where
  preencode m := do
    grow 4
    whenSome m.holepunch holepunchInfo.preencode
    whenSome (nonEmpty m.addresses4) ipv4Array.preencode
    whenSome (nonEmpty m.addresses6) ipv6Array.preencode
    whenSome m.udx udxInfo.preencode
    whenSome m.secretStream secretStreamInfo.preencode
    whenSome m.relayThrough relayThroughInfo.preencode
    whenSome m.relayAddresses ipv4Array.preencode
  encode m := do
    uint.encode 1
    uint.encode m.flags
    uint.encode m.error
    uint.encode m.firewall
    whenSome m.holepunch holepunchInfo.encode
    whenSome (nonEmpty m.addresses4) ipv4Array.encode
    whenSome (nonEmpty m.addresses6) ipv6Array.encode
    whenSome m.udx udxInfo.encode
    whenSome m.secretStream secretStreamInfo.encode
    whenSome m.relayThrough relayThroughInfo.encode
    whenSome m.relayAddresses ipv4Array.encode
  decode := do
    let version ← uint.decode
    if version ≠ 1 then
      pure (undecoded version)
    else do
      let flags ← uint.decode
      let error ← uint.decode
      let firewall ← uint.decode
      let holepunch ← ifSet (flags &&& 1 != 0) holepunchInfo.decode
      let addresses4 ← ifSet (flags &&& 2 != 0) ipv4Array.decode
      let addresses6 ← ifSet (flags &&& 4 != 0) ipv6Array.decode
      let udx ← ifSet (flags &&& 8 != 0) udxInfo.decode
      let secretStream ← ifSet (flags &&& 16 != 0) secretStreamInfo.decode
      let relayThrough ← ifSet (flags &&& 32 != 0) relayThroughInfo.decode
      let relayAddresses ← ifSet (flags &&& 64 != 0) ipv4Array.decode
      pure { version, error, firewall, holepunch, addresses4 := some (addresses4.getD empty),
             addresses6 := some (addresses6.getD empty), udx, secretStream, relayThrough,
             relayAddresses }

/-! ## `holepunch` and `holepunchPayload` -/

structure Holepunch where
  mode : Uint
  id : Uint
  payload : Option Buffer
  peerAddress : Option Ipv4
deriving DecidableEq

def holepunch : Codec Holepunch Holepunch where
  preencode m := do
    grow 2
    uint.preencode m.id
    buffer.preencode m.payload
    whenSome m.peerAddress ipv4.preencode
  encode m := do
    uint.encode (if m.peerAddress.isSome then 1 else 0)
    uint.encode m.mode
    uint.encode m.id
    buffer.encode m.payload
    whenSome m.peerAddress ipv4.encode
  decode := do
    let flags ← uint.decode
    let mode ← uint.decode
    let id ← uint.decode
    let payload ← buffer.decode
    let peerAddress ← ifSet (flags &&& 1 != 0) ipv4.decode
    pure { mode, id, payload, peerAddress }

structure HolepunchPayload where
  error : Uint
  firewall : Uint
  round : Uint
  connected : Bool
  punching : Bool
  addresses : Option (Arr Ipv4)
  remoteAddress : Option Ipv4
  token : Option (Fixed 32)
  remoteToken : Option (Fixed 32)
deriving DecidableEq

def HolepunchPayload.flags (m : HolepunchPayload) : Uint :=
  (if m.connected then 1 else 0) ||| (if m.punching then 2 else 0) |||
    (if m.addresses.isSome then 4 else 0) ||| (if m.remoteAddress.isSome then 8 else 0) |||
    (if m.token.isSome then 16 else 0) ||| (if m.remoteToken.isSome then 32 else 0)

def holepunchPayload : Codec HolepunchPayload HolepunchPayload where
  preencode m := do
    grow 4
    whenSome m.addresses ipv4Array.preencode
    grow ((if m.remoteAddress.isSome then 6 else 0) + (if m.token.isSome then 32 else 0) +
      (if m.remoteToken.isSome then 32 else 0))
  encode m := do
    uint.encode m.flags
    uint.encode m.error
    uint.encode m.firewall
    uint.encode m.round
    whenSome m.addresses ipv4Array.encode
    whenSome m.remoteAddress ipv4.encode
    whenSome m.token (fixed 32).encode
    whenSome m.remoteToken (fixed 32).encode
  decode := do
    let flags ← uint.decode
    let error ← uint.decode
    let firewall ← uint.decode
    let round ← uint.decode
    let addresses ← ifSet (flags &&& 4 != 0) ipv4Array.decode
    let remoteAddress ← ifSet (flags &&& 8 != 0) ipv4.decode
    let token ← ifSet (flags &&& 16 != 0) (fixed 32).decode
    let remoteToken ← ifSet (flags &&& 32 != 0) (fixed 32).decode
    pure { error, firewall, round, connected := flags &&& 1 != 0, punching := flags &&& 2 != 0,
           addresses, remoteAddress, token, remoteToken }

/-! ## `peer`, `lookupRawReply` and `announce` -/

structure Peer where
  publicKey : Fixed 32
  relayAddresses : Arr Ipv4
deriving DecidableEq

def peer : Codec Peer Peer where
  preencode m := do
    grow 32
    ipv4Array.preencode m.relayAddresses
  encode m := do
    (fixed 32).encode m.publicKey
    ipv4Array.encode m.relayAddresses
  decode := do
    let publicKey ← (fixed 32).decode
    let relayAddresses ← ipv4Array.decode
    pure { publicKey, relayAddresses }

def peers : Codec (Arr Peer) (Arr Peer) := array peer

def rawPeers : Codec (Arr Buffer) (Arr Buffer) := array raw

/-- The reply as it is sent: peers are records encoded before. -/
structure LookupRawReply where
  peers : Arr Buffer
  bump : Uint
deriving DecidableEq

structure LookupReply where
  peers : Arr Peer
  bump : Uint
deriving DecidableEq

/-- `state.start < state.end`. -/
def more : Coder Bool := fun s => some (decide (s.start < s.stop), s)

def lookupRawReply : Codec LookupRawReply LookupReply where
  preencode m := do
    rawPeers.preencode m.peers
    uint.preencode m.bump
  encode m := do
    rawPeers.encode m.peers
    uint.encode m.bump
  decode := do
    let peers ← peers.decode
    let more ← more
    let bump ← if more then uint.decode else pure 0
    pure { peers, bump }

structure Announce where
  peer : Option Peer
  refresh : Option (Fixed 32)
  signature : Option (Fixed 64)
  bump : Option Uint
deriving DecidableEq

/-- An integer that is there and not zero. -/
def truthy (n : Option Uint) : Option Uint := n.filter fun n => n != 0

def Announce.flags (m : Announce) : Uint :=
  (if m.peer.isSome then 1 else 0) ||| (if m.refresh.isSome then 2 else 0) |||
    (if m.signature.isSome then 4 else 0) ||| (if (truthy m.bump).isSome then 8 else 0)

def announce : Codec Announce Announce where
  preencode m := do
    grow 1
    whenSome m.peer peer.preencode
    grow ((if m.refresh.isSome then 32 else 0) + (if m.signature.isSome then 64 else 0))
    whenSome (truthy m.bump) uint.preencode
  encode m := do
    uint.encode m.flags
    whenSome m.peer peer.encode
    whenSome m.refresh (fixed 32).encode
    whenSome m.signature (fixed 64).encode
    whenSome (truthy m.bump) uint.encode
  decode := do
    let flags ← uint.decode
    let peer ← ifSet (flags &&& 1 != 0) peer.decode
    let refresh ← ifSet (flags &&& 2 != 0) (fixed 32).decode
    let signature ← ifSet (flags &&& 4 != 0) (fixed 64).decode
    let bump ← ifSet (flags &&& 8 != 0) uint.decode
    pure { peer, refresh, signature, bump := some (bump.getD 0) }

/-! ## `mutablePutRequest`, `mutableGetResponse` and `pluginRequest` -/

structure MutablePutRequest where
  publicKey : Fixed 32
  seq : Double
  value : Option Buffer
  signature : Fixed 64
deriving DecidableEq

def mutablePutRequest : Codec MutablePutRequest MutablePutRequest where
  preencode m := do
    (fixed 32).preencode m.publicKey
    number.preencode m.seq
    buffer.preencode m.value
    (fixed 64).preencode m.signature
  encode m := do
    (fixed 32).encode m.publicKey
    number.encode m.seq
    buffer.encode m.value
    (fixed 64).encode m.signature
  decode := do
    let publicKey ← (fixed 32).decode
    let seq ← number.decode
    let value ← buffer.decode
    let signature ← (fixed 64).decode
    pure { publicKey, seq, value, signature }

structure MutableGetResponse where
  seq : Double
  value : Option Buffer
  signature : Fixed 64
deriving DecidableEq

def mutableGetResponse : Codec MutableGetResponse MutableGetResponse where
  preencode m := do
    number.preencode m.seq
    buffer.preencode m.value
    (fixed 64).preencode m.signature
  encode m := do
    number.encode m.seq
    buffer.encode m.value
    (fixed 64).encode m.signature
  decode := do
    let seq ← number.decode
    let value ← buffer.decode
    let signature ← (fixed 64).decode
    pure { seq, value, signature }

structure PluginRequest where
  plugin : Text
  version : Uint
  command : Uint
  value : Option Buffer
deriving DecidableEq

def pluginRequest : Codec PluginRequest PluginRequest where
  preencode m := do
    string.preencode m.plugin
    uint.preencode m.version
    uint.preencode m.command
    grow 1
    whenSome m.value fun value => buffer.preencode (some value)
  encode m := do
    string.encode m.plugin
    uint.encode m.version
    uint.encode m.command
    uint.encode (if m.value.isSome then 1 else 0)
    whenSome m.value fun value => buffer.encode (some value)
  decode := do
    let plugin ← string.decode
    let version ← uint.decode
    let command ← uint.decode
    let flags ← uint.decode
    let value ← ifSet (flags &&& 1 != 0) buffer.decode
    pure { plugin, version, command, value := value.join }

end HyperDht.Messages
