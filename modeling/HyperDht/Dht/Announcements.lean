import HyperDht.Dht.Mutables
import HyperDht.Lib.Runs

/-!
# Announcements

`onannounce`, `_onrefresh` and `onunannounce` of `lib/persistent.js`. An announcement stands in
the router, where the target is the hash of its public key, and else in the record cache. The
refresh map keeps its record under the token it came with; a refresh carries a token that
hashes to that one and puts the record back without a signature. An unannouncement removes the
record from the router and the cache, but leaves the refresh map alone.

Tokens are of any type with a hash, those of the wire are 32 bytes.
-/

namespace HyperDht.Announcements

open CompactEncoding Messages

structure Ann (τ : Type) where
  peer : Option Peer
  refresh : Option τ
  signature : Option (Fixed 64)
  bump : Uint
deriving DecidableEq

/-- What the handlers take from outside: the decoder, the hash and the signature scheme, the
namespaces of signatures, and memory with whatever it held before. -/
structure Env (τ : Type) where
  decode : List UInt8 → Option (Ann τ)
  hash : List UInt8 → Fixed 32
  hashToken : τ → τ
  tokenBytes : τ → List UInt8
  verify : Fixed 64 → List UInt8 → Fixed 32 → Bool
  announce : Fixed 32
  unannounce : Fixed 32
  alloc : (n : Nat) → Fixed n

/-- Tokens of 32 bytes in an `announce` as it is sent. -/
def Env.ofBytes (hash : List UInt8 → Fixed 32) (verify : Fixed 64 → List UInt8 → Fixed 32 → Bool)
    (announce unannounce : Fixed 32) (alloc : (n : Nat) → Fixed n) : Env (Fixed 32) where
  decode b := (Mutables.decodeBytes Messages.announce b).map fun ann =>
    ⟨ann.peer, ann.refresh, ann.signature, ann.bump.getD 0⟩
  hash := hash
  hashToken token := hash token.val
  tokenBytes token := token.val
  verify := verify
  announce := announce
  unannounce := unannounce
  alloc := alloc

/-- `target`, `token` and `value` of a request, where it has them, and `from`. -/
structure Request where
  target : Option (List UInt8)
  token : Option (List UInt8)
  value : Option (List UInt8)
  sender : Ipv4
deriving DecidableEq

/-- `127.0.0.1`. -/
def localhost : Fixed 4 := ⟨[127, 0, 0, 1], rfl⟩

/-- An entry of the router; `onconnect` and `onholepunch` are `null`. -/
structure Forward where
  relay : Ipv4
  record : List UInt8
deriving DecidableEq

structure Refresh where
  k : List UInt8
  record : List UInt8
  announceSelf : Bool
deriving DecidableEq

/-- The router and the caches, without eviction. `records` is keyed by target and public key. -/
structure Node (τ : Type) where
  router : JsMap (List UInt8) Forward
  records : JsMap (List UInt8 × List UInt8) (List UInt8)
  bumps : JsMap (List UInt8) Uint
  refreshes : JsMap τ Refresh

def Node.empty {τ : Type} : Node τ := ⟨.empty, .empty, .empty, .empty⟩

inductive Answer where
  | silent
  | reply
  | throws
deriving DecidableEq

def maxBumpDrift : Nat := 60000

variable {τ : Type}

/-- The public key a record begins with. -/
def keyOf (record : List UInt8) : List UInt8 := record.take 32

def annSignable (e : Env τ) (target token id : List UInt8) (p : Peer) (refresh : Option τ)
    (ns : Fixed 32) : Option (List UInt8) := do
  let encoded ← Messages.peer.run e.alloc p
  let refresh := (refresh.map e.tokenBytes).getD []
  some (ns.val ++ (e.hash (target ++ id ++ token ++ encoded ++ refresh)).val)

def unannounce (e : Env τ) (n : Node τ) (target publicKey : List UInt8) : Node τ :=
  { n with
    router := if (e.hash publicKey).val = target then n.router.delete target else n.router
    records := n.records.delete (target, publicKey) }

/-- `id` is `dht.id`, which an ephemeral node does not have. -/
def onunannounce (e : Env τ) (n : Node τ) (id : Option (List UInt8)) (req : Request) :
    Node τ × Answer :=
  match req.target, req.token with
  | some target, some token =>
    match req.value.bind e.decode with
    | none => (n, .silent)
    | some unann =>
      match unann.peer, unann.signature with
      | some peer, some signature =>
        match id with
        -- `id` is hashed unchecked here
        | none => (n, .throws)
        | some id =>
          match annSignable e target token id peer unann.refresh e.unannounce with
          | none => (n, .throws)
          | some signable =>
            if e.verify signature signable peer.publicKey then
              (unannounce e n target peer.publicKey.val, .reply)
            else (n, .silent)
      | _, _ => (n, .silent)
  | _, _ => (n, .silent)

def onrefresh [DecidableEq τ] (e : Env τ) (n : Node τ) (token : τ) (req : Request) : Node τ × Answer :=
  let activeRefresh := e.hashToken token
  match n.refreshes.get? activeRefresh with
  | none => (n, .silent)
  | some r =>
    let publicKey := keyOf r.record
    let n :=
      if r.announceSelf then
        { n with
          router := n.router.set r.k ⟨req.sender, r.record⟩
          records := n.records.delete (r.k, publicKey) }
      else { n with records := n.records.set (r.k, publicKey) r.record }
    ({ n with refreshes := (n.refreshes.delete activeRefresh).set token r }, .reply)

def threeRelays (p : Peer) : Peer :=
  if p.relayAddresses.val.length > 3 then
    { p with relayAddresses := p.relayAddresses.take 3 }
  else p

/-- `now` is `Date.now()`. -/
def onannounce [DecidableEq τ] (e : Env τ) (n : Node τ) (id : Option (List UInt8)) (now : Nat)
    (req : Request) : Node τ × Answer :=
  match req.target, req.token, id with
  | some target, some token, some id =>
    match req.value.bind e.decode with
    | none => (n, .silent)
    | some ann =>
      match ann.peer with
      | none =>
        match ann.refresh with
        | none => (n, .silent)
        | some refresh => onrefresh e n refresh req
      | some peer =>
        match annSignable e target token id peer ann.refresh e.announce with
        | none => (n, .throws)
        | some signable =>
          match ann.signature with
          | none => (n, .silent)
          | some signature =>
            if e.verify signature signable peer.publicKey then
              let announceSelf := decide ((e.hash peer.publicKey.val).val = target)
              match Messages.peer.run e.alloc (threeRelays peer) with
              | none => (n, .throws)
              | some record =>
                let n :=
                  if announceSelf then
                    { n with
                      router := n.router.set target ⟨req.sender, record⟩
                      records := n.records.delete (target, peer.publicKey.val) }
                  else
                    let currentBump := (n.bumps.get? target).getD 0
                    { n with
                      bumps :=
                        if ann.bump > currentBump ∧ ann.bump.val ≤ now + maxBumpDrift then
                          n.bumps.set target ann.bump
                        else n.bumps
                      records := n.records.set (target, peer.publicKey.val) record }
                let n :=
                  match ann.refresh with
                  | none => n
                  | some refresh =>
                    { n with refreshes := n.refreshes.set refresh ⟨target, record, announceSelf⟩ }
                (n, .reply)
            else (n, .silent)
  | _, _, _ => (n, .silent)

/-! ## One request -/

/-- Where a record is put: in the router, or among the records of its target. -/
structure Placed (n n' : Node τ) (r : Refresh) (relay : Ipv4) : Prop where
  router : n'.router = if r.announceSelf then n.router.set r.k ⟨relay, r.record⟩ else n.router
  records : n'.records =
    if r.announceSelf then n.records.delete (r.k, keyOf r.record)
    else n.records.set (r.k, keyOf r.record) r.record

/-- An announcement that is accepted, and what is kept of it. -/
structure Announces (e : Env τ) (id : Option (List UInt8)) (req : Request) (a : Ann τ) (p : Peer)
    (r : Refresh) : Prop where
  decoded : req.value.bind e.decode = some a
  peer : a.peer = some p
  target : req.target = some r.k
  record : r.record = (threeRelays p).bytes
  announceSelf : r.announceSelf = decide ((e.hash p.publicKey.val).val = r.k)
  signed : ∃ token i signature signable, req.token = some token ∧ id = some i ∧
    a.signature = some signature ∧
    annSignable e r.k token i p a.refresh e.announce = some signable ∧
    e.verify signature signable p.publicKey = true

/-- A refresh that is accepted: its token hashes to one of the refresh map. -/
structure Refreshes [DecidableEq τ] (e : Env τ) (n : Node τ) (id : Option (List UInt8))
    (req : Request) (token : τ) (r : Refresh) : Prop where
  complete : req.target ≠ none ∧ req.token ≠ none ∧ id ≠ none
  decoded : ∃ a, req.value.bind e.decode = some a ∧ a.peer = none ∧ a.refresh = some token
  active : n.refreshes.get? (e.hashToken token) = some r

structure Unannounces (e : Env τ) (id : Option (List UInt8)) (req : Request) (k : List UInt8)
    (p : Peer) : Prop where
  target : req.target = some k
  decoded : ∃ a, req.value.bind e.decode = some a ∧ a.peer = some p
  signed : ∃ a token i signature signable, req.value.bind e.decode = some a ∧
    req.token = some token ∧ id = some i ∧ a.signature = some signature ∧
    annSignable e k token i p a.refresh e.unannounce = some signable ∧
    e.verify signature signable p.publicKey = true

theorem run_peer (e : Env τ) (p : Peer) : Messages.peer.run e.alloc p = some p.bytes :=
  (exactAs_peer p).run e.alloc

@[simp] theorem threeRelays_publicKey (p : Peer) : (threeRelays p).publicKey = p.publicKey := by
  unfold threeRelays
  split <;> rfl

@[simp] theorem keyOf_bytes (p : Peer) : keyOf p.bytes = p.publicKey.val := by
  unfold keyOf Peer.bytes
  exact List.take_left' p.publicKey.property

theorem Announces.keyOf {e : Env τ} {id : Option (List UInt8)} {req : Request} {a : Ann τ}
    {p : Peer} {r : Refresh} (h : Announces e id req a p r) : keyOf r.record = p.publicKey.val := by
  rw [h.record, keyOf_bytes, threeRelays_publicKey]

/-- An `onunannounce` changes nothing, or removes what it was signed for. -/
theorem onunannounce_cases (e : Env τ) (n : Node τ) (id : Option (List UInt8)) (req : Request) :
    ((onunannounce e n id req).1 = n ∧ (onunannounce e n id req).2 ≠ .reply) ∨
    ∃ target p, Unannounces e id req target p ∧
      onunannounce e n id req = (unannounce e n target p.publicKey.val, .reply) := by
  unfold onunannounce
  split
  · next target token htarget htoken =>
    split
    · exact .inl ⟨rfl, by simp⟩
    · next a ha =>
      split
      · next p signature hp hsignature =>
        split
        · exact .inl ⟨rfl, by simp⟩
        · next i =>
          split
          · exact .inl ⟨rfl, by simp⟩
          · next signable hsignable =>
            split
            · next hverify =>
              exact .inr ⟨target, p, ⟨htarget, ⟨a, ha, hp⟩, a, token, i, signature, signable, ha,
                htoken, rfl, hsignature, hsignable, hverify⟩, rfl⟩
            · exact .inl ⟨rfl, by simp⟩
      · exact .inl ⟨rfl, by simp⟩
  · exact .inl ⟨rfl, by simp⟩

/-- A `_onrefresh` changes nothing, or puts back the record of the token's hash and keeps it
under the token. -/
theorem onrefresh_cases [DecidableEq τ] (e : Env τ) (n : Node τ) (token : τ) (req : Request) :
    (n.refreshes.get? (e.hashToken token) = none ∧ onrefresh e n token req = (n, .silent)) ∨
    ∃ r, n.refreshes.get? (e.hashToken token) = some r ∧
      (onrefresh e n token req).2 = .reply ∧
      Placed n (onrefresh e n token req).1 r req.sender ∧
      (onrefresh e n token req).1.refreshes =
        (n.refreshes.delete (e.hashToken token)).set token r := by
  unfold onrefresh
  dsimp only
  cases hr : n.refreshes.get? (e.hashToken token) with
  | none => exact .inl ⟨rfl, rfl⟩
  | some r =>
    refine .inr ⟨r, rfl, rfl, ?_, ?_⟩
    · cases hself : r.announceSelf with
      | true => constructor <;> simp [hself]
      | false => constructor <;> simp [hself]
    · cases hself : r.announceSelf with
      | true => simp [hself]
      | false => simp [hself]

theorem onannounce_cases [DecidableEq τ] (e : Env τ) (n : Node τ) (id : Option (List UInt8))
    (now : Nat) (req : Request) :
    ((onannounce e n id now req).1 = n ∧ (onannounce e n id now req).2 ≠ .reply) ∨
    (∃ a p r, Announces e id req a p r ∧ (onannounce e n id now req).2 = .reply ∧
      Placed n (onannounce e n id now req).1 r req.sender ∧
      (onannounce e n id now req).1.refreshes =
        match a.refresh with
        | none => n.refreshes
        | some refresh => n.refreshes.set refresh r) ∨
    ∃ token r, Refreshes e n id req token r ∧ (onannounce e n id now req).2 = .reply ∧
      Placed n (onannounce e n id now req).1 r req.sender ∧
      (onannounce e n id now req).1.refreshes =
        (n.refreshes.delete (e.hashToken token)).set token r := by
  unfold onannounce
  split
  · next target token i htarget htoken =>
    split
    · exact .inl ⟨rfl, by simp⟩
    · next a ha =>
      split
      · next hp =>
        split
        · exact .inl ⟨rfl, by simp⟩
        · next refresh hrefresh =>
          rcases onrefresh_cases e n refresh req with ⟨-, he⟩ | ⟨r, hr, hreply, hplaced, hmap⟩
          · rw [he]
            exact .inl ⟨rfl, by simp⟩
          · exact .inr (.inr ⟨refresh, r, ⟨by simp [htarget, htoken], ⟨a, ha, hp, hrefresh⟩, hr⟩,
              hreply, hplaced, hmap⟩)
      · next p hp =>
        split
        · exact .inl ⟨rfl, by simp⟩
        · next signable hsignable =>
          split
          · exact .inl ⟨rfl, by simp⟩
          · next signature hsignature =>
            split
            · next hverify =>
              rw [run_peer]
              dsimp only
              let r : Refresh := ⟨target, (threeRelays p).bytes,
                decide ((e.hash p.publicKey.val).val = target)⟩
              have hannounces : Announces e (some i) req a p r :=
                ⟨ha, hp, htarget, rfl, rfl,
                  token, i, signature, signable, htoken, rfl, hsignature, hsignable, hverify⟩
              have hkey : keyOf r.record = p.publicKey.val := hannounces.keyOf
              refine .inr (.inl ⟨a, p, r, hannounces, rfl, ?_, ?_⟩)
              · constructor
                · cases a.refresh <;> by_cases hself : (e.hash p.publicKey.val).val = target <;>
                    simp [r, hself]
                · rw [hkey]
                  cases a.refresh <;> by_cases hself : (e.hash p.publicKey.val).val = target <;>
                    simp [r, hself]
              · cases a.refresh <;> by_cases hself : (e.hash p.publicKey.val).val = target <;>
                  simp [r, hself]
            · exact .inl ⟨rfl, by simp⟩
  · exact .inl ⟨rfl, by simp⟩

theorem Refreshes.onannounce_eq [DecidableEq τ] {e : Env τ} {n : Node τ}
    {id : Option (List UInt8)} {req : Request} {token : τ} {r : Refresh}
    (h : Refreshes e n id req token r) (now : Nat) :
    onannounce e n id now req = onrefresh e n token req := by
  obtain ⟨⟨htarget, htoken, hid⟩, ⟨a, ha, hp, hrefresh⟩, -⟩ := h
  obtain ⟨target, ht⟩ := Option.ne_none_iff_exists'.mp htarget
  obtain ⟨t, ht'⟩ := Option.ne_none_iff_exists'.mp htoken
  obtain ⟨i, rfl⟩ := Option.ne_none_iff_exists'.mp hid
  unfold onannounce
  rw [ht, ht', ha]
  dsimp only
  rw [hp, hrefresh]

end HyperDht.Announcements
