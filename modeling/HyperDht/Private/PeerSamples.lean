import HyperDht.Lib.BottomK
import HyperDht.Lib.CompactEncoding
import HyperDht.Lib.Text
import HyperDht.Private.DescriptorPut

/-!
# Samples of lookup replies

`_sampleDirectoryTarget` keeps eight public keys of the replies of one lookup, `_bootstrap`
twenty contacts. Both rank a candidate by a keyed hash under a key of the call and keep the
lowest ranks (`Lib.BottomK`). The hash functions, `UDX.isIP` and the address text of
compact-encoding are parameters.

`peer_samples` says that what is kept depends on the set of the candidates only.
-/

namespace HyperDht.Private

def maxReferrals : Nat := 20
def bootstrapTtlMs : Nat := 5 * 60 * 1000

/-- `crypto_generichash` of `bytes` under `sampleKey`, as `b4a.compare` reads it: byte by byte. -/
def rankOf (generichash : List UInt8 → List UInt8 → List UInt8) (sampleKey bytes : List UInt8) :
    List Nat :=
  (generichash bytes sampleKey).map UInt8.toNat

/-! ## Directory targets -/

/-- A peer of a reply; `none` for a public key that is no buffer. -/
structure DirectoryPeer where
  publicKey : Option (List UInt8)
  deriving DecidableEq, Repr

/-- The `peers` of a reply; `none` where there is no reply or no array, or no peer. -/
abbrev DirectoryReply := Option (List (Option DirectoryPeer))

section Directory

variable (generichash : List UInt8 → List UInt8 → List UInt8) (sampleKey : List UInt8)

abbrev DirectorySample := Sample String (List Nat) (List UInt8)

def directoryPeer (s : DirectorySample) (peer : Option DirectoryPeer) : DirectorySample :=
  match peer with
  | none => s
  | some ⟨none⟩ => s
  | some ⟨some publicKey⟩ =>
    if publicKey.length ≠ 32 then s
    else s.offer maxReplies ⟨hex publicKey, publicKey, rankOf generichash sampleKey publicKey⟩

def directoryReply (s : DirectorySample) (reply : DirectoryReply) : DirectorySample :=
  match reply with
  | none => s
  | some peers => peers.foldl (directoryPeer generichash sampleKey) s

/-- `_sampleDirectoryTarget`, over the replies of its query. -/
def sampleDirectoryTarget (replies : List DirectoryReply) : List (List UInt8) :=
  (replies.foldl (directoryReply generichash sampleKey) .empty).sample.map (·.value)

end Directory

def validKey (peer : Option DirectoryPeer) : Option (List UInt8) :=
  (peer.bind (·.publicKey)).filter fun publicKey => publicKey.length = 32

/-- The public keys that the replies list, with their repetitions. -/
def directoryCandidates (replies : List DirectoryReply) : List (List UInt8) :=
  replies.flatMap fun reply => (reply.getD []).filterMap validKey

/-! ## Bootstrap contacts -/

structure PeerAddress where
  host : String
  port : Int
  deriving DecidableEq, Repr

structure Contact where
  id : List UInt8
  host : String
  port : Nat
  deriving DecidableEq, Repr

/-- What `_bootstrap` uses that is not its own. -/
structure StorageEnv where
  isIP : String → Nat
  /-- The host bytes that `c.ipv4Address` writes. -/
  ipv4 : String → Fixed 4
  hash : List UInt8 → List UInt8
  generichash : List UInt8 → List UInt8 → List UInt8
  /-- The host of `this.dht.address()`. -/
  localHost : Option String
  /-- `this._isDead`. -/
  isDead : String → Bool

def endpointKey (c : Contact) : String := c.host ++ ":" ++ toString c.port

structure StoragePeer where
  relayAddresses : Option (List (Option PeerAddress))
  deriving DecidableEq, Repr

abbrev StorageReply := Option (List (Option StoragePeer))

/-- A turn of the loop: whether `operation.check()` passes, and the reply. -/
structure QueryTurn where
  check : Bool
  reply : StorageReply
  deriving DecidableEq, Repr

/-- A call: its checks before and after the loop, and its turns. -/
structure BootstrapCall where
  before : Bool
  turns : List QueryTurn
  after : Bool
  last : Bool
  deriving DecidableEq, Repr

structure BootstrapState where
  bootstrapHints : List Contact
  bootstrapExpiresAt : Nat
  deriving DecidableEq, Repr

abbrev ContactSample := Sample String (List Nat) Contact

namespace StorageEnv

variable (env : StorageEnv)

/-- `_contact` of an address that is not an observed one. -/
def contact (address : Option PeerAddress) : Option Contact :=
  match address with
  | none => none
  | some address =>
    if env.isIP address.host ≠ 4 ∨ address.port < 1 ∨ address.port > 65535 then none
    else
      let host := env.ipv4 address.host
      let port := address.port.toNat
      let encoded := CompactEncoding.addressBytes ⟨host, UInt16.ofNat port⟩
      if encoded.head? = some 0 ∨ encoded.head?.any (· ≥ 224) then none
      else if encoded.head? = some 127 ∧ ¬env.localHost.any fun localHost =>
          env.isIP localHost = 4 && localHost.startsWith "127." then none
      else some ⟨env.hash encoded, address.host, port⟩

variable (sampleKey : List UInt8)

def bootstrapAddress (s : ContactSample) (address : Option PeerAddress) : ContactSample :=
  match env.contact address with
  | none => s
  | some contact =>
    let id := endpointKey contact
    if env.isDead id then s
    else s.offer maxReferrals ⟨id, contact, rankOf env.generichash sampleKey contact.id⟩

def bootstrapPeer (s : ContactSample) (peer : Option StoragePeer) : ContactSample :=
  match peer with
  | none => s
  | some ⟨none⟩ => s
  | some ⟨some relayAddresses⟩ =>
    if relayAddresses.length > 3 then s
    else relayAddresses.foldl (env.bootstrapAddress sampleKey) s

def bootstrapReply (s : ContactSample) (reply : StorageReply) : ContactSample :=
  match reply with
  | none => s
  | some peers =>
    if peers.length > maxReferrals then s else peers.foldl (env.bootstrapPeer sampleKey) s

/-- The loop over the query; `none` where a check throws. -/
def bootstrapTurns : ContactSample → List QueryTurn → Option ContactSample
  | s, [] => some s
  | s, turn :: turns =>
    if turn.check then bootstrapTurns (env.bootstrapReply sampleKey s turn.reply) turns else none

/-- `_bootstrap`; `now` is the time of the call and `done` the time after its query. -/
def bootstrap (s : BootstrapState) (limit now done : Nat) (call : BootstrapCall) :
    BootstrapState × Option (List Contact) :=
  if call.before = false then (s, none)
  else if now ≥ s.bootstrapExpiresAt then
    match env.bootstrapTurns sampleKey .empty call.turns with
    | none => ({ s with bootstrapExpiresAt := 0 }, none)
    | some sample =>
      if call.after = false then ({ s with bootstrapExpiresAt := 0 }, none)
      else
        let hints := sample.sample.map (·.value)
        let s := {
          bootstrapHints := hints
          bootstrapExpiresAt := if hints.length > 0 then done + bootstrapTtlMs else 0 }
        (s, if call.last then some (hints.take limit) else none)
  else (s, if call.last then some (s.bootstrapHints.take limit) else none)

def validContact (address : Option PeerAddress) : Option Contact :=
  (env.contact address).filter fun contact => !env.isDead (endpointKey contact)

def peerContacts (peer : Option StoragePeer) : List Contact :=
  let relayAddresses := (peer.bind (·.relayAddresses)).getD []
  if relayAddresses.length > 3 then [] else relayAddresses.filterMap env.validContact

def replyContacts (reply : StorageReply) : List Contact :=
  let peers := reply.getD []
  if peers.length > maxReferrals then [] else peers.flatMap env.peerContacts

/-- The contacts that the replies list, with their repetitions. -/
def bootstrapCandidates (turns : List QueryTurn) : List Contact :=
  turns.flatMap fun turn => env.replyContacts turn.reply

end StorageEnv

/-! ## Candidates offered -/

section Offers

variable {generichash : List UInt8 → List UInt8 → List UInt8} {sampleKey : List UInt8}

theorem directoryPeer_eq (s : DirectorySample) (peer : Option DirectoryPeer) :
    directoryPeer generichash sampleKey s peer =
      ((validKey peer).toList.map (Sample.entry hex (rankOf generichash sampleKey))).foldl
        (Sample.offer maxReplies) s := by
  rcases peer with _ | ⟨_ | publicKey⟩
  · rfl
  · rfl
  · unfold directoryPeer validKey
    dsimp only
    by_cases hlength : publicKey.length = 32
    · rw [if_neg (not_not.mpr hlength), Option.bind_some, Option.filter_some_pos (by simpa)]
      rfl
    · rw [if_pos hlength, Option.bind_some, Option.filter_some_neg (by simpa)]
      rfl

theorem sampleDirectoryTarget_eq (replies : List DirectoryReply) :
    sampleDirectoryTarget generichash sampleKey replies =
      (((directoryCandidates replies).map
        (Sample.entry hex (rankOf generichash sampleKey))).foldl
          (Sample.offer maxReplies) .empty).sample.map (·.value) := by
  unfold sampleDirectoryTarget directoryCandidates
  rw [Sample.foldl_offers]
  intro s reply
  rcases reply with _ | peers
  · rfl
  · rw [Option.getD_some, List.filterMap_eq_flatMap_toList]
    exact Sample.foldl_offers directoryPeer_eq peers s

variable {env : StorageEnv}

theorem bootstrapAddress_eq (s : ContactSample) (address : Option PeerAddress) :
    env.bootstrapAddress sampleKey s address =
      ((env.validContact address).toList.map (Sample.entry endpointKey fun contact =>
        rankOf env.generichash sampleKey contact.id)).foldl (Sample.offer maxReferrals) s := by
  unfold StorageEnv.bootstrapAddress StorageEnv.validContact
  cases env.contact address with
  | none => rfl
  | some contact =>
    dsimp only
    cases hdead : env.isDead (endpointKey contact) with
    | true =>
      rw [if_pos rfl, Option.filter_some_neg (by simp [hdead])]
      rfl
    | false =>
      rw [if_neg Bool.false_ne_true, Option.filter_some_pos (by simp [hdead])]
      rfl

theorem bootstrapPeer_eq (s : ContactSample) (peer : Option StoragePeer) :
    env.bootstrapPeer sampleKey s peer =
      ((env.peerContacts peer).map (Sample.entry endpointKey fun contact =>
        rankOf env.generichash sampleKey contact.id)).foldl (Sample.offer maxReferrals) s := by
  rcases peer with _ | ⟨_ | relayAddresses⟩
  · rfl
  · rfl
  · unfold StorageEnv.bootstrapPeer StorageEnv.peerContacts
    dsimp only [Option.bind_some, Option.getD_some]
    split
    · rfl
    · rw [List.filterMap_eq_flatMap_toList]
      exact Sample.foldl_offers bootstrapAddress_eq relayAddresses s

theorem bootstrapReply_eq (s : ContactSample) (reply : StorageReply) :
    env.bootstrapReply sampleKey s reply =
      ((env.replyContacts reply).map (Sample.entry endpointKey fun contact =>
        rankOf env.generichash sampleKey contact.id)).foldl (Sample.offer maxReferrals) s := by
  rcases reply with _ | peers
  · rfl
  · unfold StorageEnv.bootstrapReply StorageEnv.replyContacts
    dsimp only [Option.getD_some]
    split
    · rfl
    · exact Sample.foldl_offers bootstrapPeer_eq peers s

theorem bootstrapTurns_eq {turns : List QueryTurn} (h : ∀ turn ∈ turns, turn.check = true)
    (s : ContactSample) :
    env.bootstrapTurns sampleKey s turns =
      some (((env.bootstrapCandidates turns).map (Sample.entry endpointKey fun contact =>
        rankOf env.generichash sampleKey contact.id)).foldl (Sample.offer maxReferrals) s) := by
  induction turns generalizing s with
  | nil => rfl
  | cons turn turns ih =>
    rw [List.forall_mem_cons] at h
    unfold StorageEnv.bootstrapTurns
    rw [if_pos h.1, ih h.2, bootstrapReply_eq, ← List.foldl_append, ← List.map_append]
    rfl

end Offers

/-! ## Keys and contacts -/

theorem endpointKey_inj {c d : Contact} (h : endpointKey c = endpointKey d) :
    c.host = d.host ∧ c.port = d.port := by
  have hcolon : ∀ n : Nat, ':' ∉ (Nat.toDigits 10 n).reverse := by
    intro n hmem
    have hdigit := Nat.isDigit_of_mem_toDigits (by decide) (by decide) (List.mem_reverse.mp hmem)
    exact absurd hdigit (by decide)
  have hlist : ∀ c : Contact, (endpointKey c).toList =
      c.host.toList ++ ':' :: Nat.toDigits 10 c.port := by
    intro c
    unfold endpointKey
    rw [String.toList_append, String.toList_append, Nat.toString_eq_ofList_toDigits,
      String.toList_ofList, String.toList_ofList, List.append_assoc, List.singleton_append]
  have hreverse : (Nat.toDigits 10 c.port).reverse ++ ':' :: c.host.toList.reverse =
      (Nat.toDigits 10 d.port).reverse ++ ':' :: d.host.toList.reverse := by
    have heq := congrArg List.reverse (congrArg String.toList h)
    rw [hlist, hlist, List.reverse_append, List.reverse_append, List.reverse_cons,
      List.reverse_cons, List.append_assoc, List.append_assoc] at heq
    exact heq
  -- the last colon is the one before the port
  obtain ⟨hport, hhost⟩ := append_cons_inj (hcolon c.port) (hcolon d.port) hreverse
  have hport := congrArg (fun l => Nat.ofDigitChars 10 l 0) (List.reverse_injective hport)
  rw [Nat.ofDigitChars_ten_toDigits, Nat.ofDigitChars_ten_toDigits] at hport
  exact ⟨String.toList_injective (List.reverse_injective hhost), hport⟩

namespace StorageEnv

variable {env : StorageEnv}

theorem id_of_contact {address : Option PeerAddress} {c : Contact}
    (h : env.contact address = some c) :
    c.id = env.hash (CompactEncoding.addressBytes ⟨env.ipv4 c.host, UInt16.ofNat c.port⟩) := by
  unfold contact at h
  cases address with
  | none => cases h
  | some address =>
    dsimp only at h
    split_ifs at h
    cases h
    rfl

theorem contact_of_candidate {turns : List QueryTurn} {c : Contact}
    (h : c ∈ env.bootstrapCandidates turns) : ∃ address, env.contact address = some c := by
  obtain ⟨turn, -, h⟩ := List.mem_flatMap.mp h
  unfold replyContacts at h
  dsimp only at h
  split at h
  · cases h
  · obtain ⟨peer, -, h⟩ := List.mem_flatMap.mp h
    unfold peerContacts at h
    dsimp only at h
    split at h
    · cases h
    · obtain ⟨address, -, h⟩ := List.mem_filterMap.mp h
      exact ⟨address, (Option.filter_eq_some_iff.mp h).1⟩

theorem injOn_endpointKey (turns : List QueryTurn) :
    Set.InjOn endpointKey {c | c ∈ env.bootstrapCandidates turns} := by
  intro c hc d hd heq
  obtain ⟨a, ha⟩ := contact_of_candidate hc
  obtain ⟨b, hb⟩ := contact_of_candidate hd
  obtain ⟨hhost, hport⟩ := endpointKey_inj heq
  have hid : c.id = d.id := by rw [id_of_contact ha, id_of_contact hb, hhost, hport]
  cases c
  cases d
  simp only at hid hhost hport
  rw [hid, hhost, hport]

end StorageEnv

/-! ## The samples -/

theorem sampleDirectoryTarget_bottom {generichash : List UInt8 → List UInt8 → List UInt8}
    {sampleKey : List UInt8} {replies : List DirectoryReply}
    (h : Set.InjOn (rankOf generichash sampleKey) {p | p ∈ directoryCandidates replies}) :
    Bottom maxReplies (rankOf generichash sampleKey) (directoryCandidates replies)
      (sampleDirectoryTarget generichash sampleKey replies) := by
  rw [sampleDirectoryTarget_eq]
  exact Sample.bottom_offers (by decide) ⟨fun _ _ _ _ heq => hex_inj.mp heq, h⟩

/-- A call that refreshes the hints and whose checks pass. -/
structure Refreshes (s : BootstrapState) (now : Nat) (call : BootstrapCall) : Prop where
  expired : s.bootstrapExpiresAt ≤ now
  before : call.before = true
  turns : ∀ turn ∈ call.turns, turn.check = true
  after : call.after = true

theorem bootstrap_bottom {env : StorageEnv} {sampleKey : List UInt8} {s : BootstrapState}
    {limit now done : Nat} {call : BootstrapCall} (hcall : Refreshes s now call)
    (h : Set.InjOn (fun contact => rankOf env.generichash sampleKey contact.id)
      {c | c ∈ env.bootstrapCandidates call.turns}) :
    Bottom maxReferrals (fun contact => rankOf env.generichash sampleKey contact.id)
      (env.bootstrapCandidates call.turns)
      (env.bootstrap sampleKey s limit now done call).1.bootstrapHints := by
  unfold StorageEnv.bootstrap
  rw [if_neg (by rw [hcall.before]; exact Bool.true_eq_false_eq_False), if_pos hcall.expired,
    bootstrapTurns_eq hcall.turns]
  dsimp only
  rw [if_neg (by rw [hcall.after]; decide)]
  exact Sample.bottom_offers (by decide) ⟨StorageEnv.injOn_endpointKey call.turns, h⟩

/-- Both samples are the candidates of smallest rank, whatever the order, the grouping and the
repetitions in which the replies list them. -/
theorem peer_samples {env : StorageEnv} {sampleKey : List UInt8} {replies : List DirectoryReply}
    {s : BootstrapState} {limit now done : Nat} {call : BootstrapCall}
    (hkeys : Set.InjOn (rankOf env.generichash sampleKey) {p | p ∈ directoryCandidates replies})
    (hcontacts : Set.InjOn (fun contact => rankOf env.generichash sampleKey contact.id)
      {c | c ∈ env.bootstrapCandidates call.turns})
    (hcall : Refreshes s now call) :
    let target := sampleDirectoryTarget env.generichash sampleKey replies
    let hints := (env.bootstrap sampleKey s limit now done call).1.bootstrapHints
    (Bottom maxReplies (rankOf env.generichash sampleKey) (directoryCandidates replies) target ∧
      ∀ replies' : List DirectoryReply,
        (∀ p, p ∈ directoryCandidates replies ↔ p ∈ directoryCandidates replies') →
        sampleDirectoryTarget env.generichash sampleKey replies' = target) ∧
    (Bottom maxReferrals (fun contact => rankOf env.generichash sampleKey contact.id)
        (env.bootstrapCandidates call.turns) hints ∧
      ∀ (s' : BootstrapState) (limit' now' done' : Nat) (call' : BootstrapCall),
        Refreshes s' now' call' →
        (∀ c, c ∈ env.bootstrapCandidates call.turns ↔ c ∈ env.bootstrapCandidates call'.turns) →
        (env.bootstrap sampleKey s' limit' now' done' call').1.bootstrapHints = hints) := by
  intro target hints
  have htarget := sampleDirectoryTarget_bottom hkeys
  have hhints : Bottom maxReferrals (fun contact => rankOf env.generichash sampleKey contact.id)
      (env.bootstrapCandidates call.turns) hints := bootstrap_bottom hcall hcontacts
  refine ⟨⟨htarget, ?_⟩, hhints, ?_⟩
  · intro replies' hsame
    have hkeys' := hkeys.mono fun p hp => (hsame p).mpr hp
    exact (htarget.unique (sampleDirectoryTarget_bottom hkeys') hsame).symm
  · intro s' limit' now' done' call' hcall' hsame
    have hcontacts' := hcontacts.mono fun c hc => (hsame c).mpr hc
    exact (hhints.unique (bootstrap_bottom hcall' hcontacts') hsame).symm

/-- The ids of 1.2.3.4 at the ports from 1 on. -/
def portIds : List Nat := [
  0xf3984b988fb22dcd7ba79fb2cf9e885f6e0dc622824469aab8fb13d14aa2227b,
  0x24518d2a668a6fc6e55bf89e5026dfdeb15cdf3ecf8619de88e59b675c49ecc9,
  0xf222311cac6c5212c21f937029bd7f9a962fb157083308ad63991589e36b5723,
  0xcf34acb2a80a6f12d237edab805022aa37b7aeba51294cd0b3da406322c65713,
  0xf8c68ab932cd78b39e42d5df5712cb3f0e17540ea1d0f0c3cd05de6dc9118cb2,
  0xfdc49bb16683bb07d333e593770b7cbc31a782c1671a7530f6c14cd2940c9a8c,
  0xdf38cce07f4c2131681868946980857c95119685810864ad02d76021e5a656d4,
  0x285bd96115595d7385afa73b6c328547799644913260007b265e5a47c820ce53,
  0x1a8a6660c63159af8a10912518ab2bd4a609f8ec7e79319116d489bda05b7981,
  0xa56fe11723411f7ded4999ee1f45e6f9f42df1338da648e6d488188c2699cb9f,
  0xd659d85c7cd2a20fba92b3adaeb4d74f774cb9b3a842bdef37fcaea43ec25455,
  0xe8f4a5a52db123acc9d3621857fd421dce0945b90bde6f7e4da5ac675d8c66df,
  0x280cc6baa683c7b9393084c337f9a7edee417b4f1ebf1a80315adc1d9e022d99,
  0xbcdd9917caab140fd31b599f978adcf55702b99defbba254aab005741416a754,
  0x30a8faef54289e926c7d91db7f1fc781842615d9a29baf6217c9e69860a6a9af,
  0xdd58b60339fdb498c1a859b889551f5ad0fb498706ebb2f703e8af7d1421c2d8,
  0x412a90c480295dbcc3556fd5f30e95b678867a8cc8fff706057bcc9711ce620f,
  0xa11bc5c40bbec0340f460272550e7834338c1cb51dab242d0462fec468f39d7e,
  0xa8dec8fe02d9b34d2d4db286edd2058295bd11b63c7b7c39951725b236be238e,
  0x0e151225714b64de3ab7571015df3d072b16f5afa39020501351412280d55b72,
  0xe6997a165230c2f1f57585c688d464da33dde3626e6e8574a60238e28ceb743a]

/-- Hashes under a key of zeros, by the first byte of what is hashed: public keys of one byte
thirty-two times, and the ids above. -/
def keyedHashes : List (UInt8 × Nat) := [
  (0x01, 0xed04885ca4977579e05e2c9536dad895505839d23232ec08a7532f24d07dd3f1),
  (0x02, 0xd4bfc771025c4b0917b5d36fba1906cd87f42b7c180bec5e40ee34efb7dde636),
  (0x03, 0x90148ce23b5f12ebdfdb60ab02ddd4cac7d96d0f9aace75610c6496bbab36658),
  (0x04, 0xc00c88acad5a8a04783130907dbcfad96bc88716eece6fe21ad98f8fa0358692),
  (0x05, 0x9da091fe83cc314a7cc82eba542e1c153bc0acee6447cbad3ebe472ab767006d),
  (0x06, 0xfd886fca45b8d54891591b340e81f812162f17d67f2fa228dc3ff26c797d172b),
  (0x07, 0xabecd6d32c29f0ab64176c1ca52c369db247662e9651a1f61419e9c0d16b2bd6),
  (0x08, 0x9468779aa81849ead5df4ae09127495e10de2637f68c766c101f813ae596fac6),
  (0x09, 0x02055221b77689997379884f680741d2bb4388ce1d84a9bc5560ab258751f9ce),
  (0x7b, 0xe0b632502678f6354f2545f4a1d4b84b636fd2d55dc8e44a94481cd80cb8d96e),
  (0xc9, 0xbc5853a3a432f4a8bd158b4c9f5327e7ede0a3886e2d5b7d43eeeb6488f7cb81),
  (0x23, 0x1b79cd95f788342945a1fd259f5f7ff84777eafd8acfc095fd2238a63ecec98a),
  (0x13, 0x227602a29bd306dbf2589db86efe7902bc4531727f5d1eeb13c974926883cbe2),
  (0xb2, 0xe581bc3328b1226e36d6c886ca8463f420064e6acfad636a751f041342a2275d),
  (0x8c, 0x0558b280b59e8a87068ac353464cb82d67223b6c0df23e250373d23be056b94f),
  (0xd4, 0x9cae5280afa4c3f6a6723989fd1acf92476a70fb5596b59a708ea082759f3fd0),
  (0x53, 0xf3ff7f9b86c6ddbe6f84674452686d1624b1c6f6de54f1780d391712bef444ef),
  (0x81, 0xc206769ca4bf5b804683f531309b7ef11a785f4fc6ffd5b94f6e2e9d0994d9a6),
  (0x9f, 0x3927cfd68462490ed20cd38f5b063ce447ef0775081ff36dbf8f1b483ca26b39),
  (0x55, 0xd728e02c5f1e809e96497ea264c846f41b147f05f542055f24dd34e1661c6c90),
  (0xdf, 0x452575abe6475ae4feb928b3dec15b22012075081a6e073fc0096d03588e77ed),
  (0x99, 0xd1e3887e1d957e014969e9151b475d0ee73da8687b049989cfd172c1be04df3d),
  (0x54, 0x3fee38ca56fb4f9c8b10f83efd27428f408fb6be09b3ddcdb36b2fafbafb4f92),
  (0xaf, 0xc734780e28a7f0376fd525fffe600306bae2ab34092100c7404182845139dead),
  (0xd8, 0x95cedaebaa56753682d1b03f97e09ab0f7b43bc3ce0e1a6ab429e4b2051f620d),
  (0x0f, 0xa9f3b21b822a7f7c74234a22ec08688ddb71bb561b259be912dc825d120fc380),
  (0x7e, 0xc74b89473e0029d2183ef64961d763f82ea0c79f0d7d85bed241b2fb6997ebd1),
  (0x8e, 0xcf5a6cd7aa2e3064dddbee0ec60f207477fbb4b18e0c1f54bb00a9f4ee12a997),
  (0x72, 0x7dc99a80738d99799d6bf184c7983b9b0066360934fafcf2ecb3103daed03996),
  (0x3a, 0xf688fb37155077260056aece177eeed0820cc272894a588606e24de825df959d)]

/-- Nine public keys and twenty-one addresses: one more than each sample holds. -/
def manyPeers : StorageEnv where
  isIP host := if host = "1.2.3.4" then 4 else 0
  ipv4 _ := ⟨[1, 2, 3, 4], rfl⟩
  hash encoded := CompactEncoding.littleEndian 32 (portIds.getD ((encoded.getD 4 0).toNat - 1) 0)
  generichash bytes _ :=
    CompactEncoding.littleEndian 32 ((keyedHashes.lookup (bytes.getD 0 0)).getD 0)
  localHost := none
  isDead _ := false

def manyKeys : List DirectoryReply :=
  [some ((List.range 9).map fun i => some ⟨some (List.replicate 32 (UInt8.ofNat (i + 1)))⟩)]

def manyAddresses : BootstrapCall where
  before := true
  turns :=
    [⟨true, some ((List.range 7).map fun i =>
      some ⟨some ((List.range 3).map fun j => some ⟨"1.2.3.4", 3 * i + j + 1⟩)⟩)⟩]
  after := true
  last := true

theorem manyKeys_ranks : ∀ p ∈ directoryCandidates manyKeys, ∀ q ∈ directoryCandidates manyKeys,
    rankOf manyPeers.generichash (List.replicate 32 0) p =
      rankOf manyPeers.generichash (List.replicate 32 0) q → p = q := by
  decide +kernel

theorem manyAddresses_ranks : ∀ c ∈ manyPeers.bootstrapCandidates manyAddresses.turns,
    ∀ d ∈ manyPeers.bootstrapCandidates manyAddresses.turns,
    rankOf manyPeers.generichash (List.replicate 32 0) c.id =
      rankOf manyPeers.generichash (List.replicate 32 0) d.id → c = d := by
  decide +kernel

theorem manyAddresses_refreshes : Refreshes ⟨[], 0⟩ 1 manyAddresses :=
  ⟨by decide, rfl, by decide, rfl⟩

/-- The replies of the lookup, once and twice. The last key and the last address that are
offered each take the place of an earlier one. -/
theorem peer_samples_twice :
    Bottom maxReplies (rankOf manyPeers.generichash (List.replicate 32 0))
      (directoryCandidates manyKeys)
      (sampleDirectoryTarget manyPeers.generichash (List.replicate 32 0) manyKeys) ∧
    (sampleDirectoryTarget manyPeers.generichash (List.replicate 32 0) manyKeys).length = 8 ∧
    sampleDirectoryTarget manyPeers.generichash (List.replicate 32 0) (manyKeys ++ manyKeys) =
      sampleDirectoryTarget manyPeers.generichash (List.replicate 32 0) manyKeys ∧
    (manyPeers.bootstrap (List.replicate 32 0) ⟨[], 0⟩ 5 1 2
      manyAddresses).1.bootstrapHints.length = 20 := by
  have hsamples := @peer_samples manyPeers (List.replicate 32 0) manyKeys ⟨[], 0⟩ 5 1 2 manyAddresses
    (fun p hp q hq => manyKeys_ranks p hp q hq)
    (fun c hc d hd => manyAddresses_ranks c hc d hd) manyAddresses_refreshes
  obtain ⟨⟨htarget, hsame⟩, hhints, -⟩ := hsamples
  have hcandidates : directoryCandidates (manyKeys ++ manyKeys) =
      directoryCandidates manyKeys ++ directoryCandidates manyKeys := List.flatMap_append
  refine ⟨htarget, htarget.size.trans (by decide +kernel), hsame _ fun p => ?_,
    hhints.size.trans (by decide +kernel)⟩
  rw [hcandidates, List.mem_append, or_self]

end HyperDht.Private
