import HyperDht.Dht.Announcements
import Mathlib.Logic.Function.Iterate

/-!
# Refresh chains

`createRefreshChain` of `lib/refresh-chain.js`, and a node that gets announcements and refreshes
over a network which loses, repeats and reorders them and makes requests of its own with the
tokens it has seen. A token is known by its seed and by how often it was hashed.
-/

namespace HyperDht.RefreshChain

open Announcements

inductive Token where
  | seed (n : Nat)
  | hash (t : Token)
deriving DecidableEq

/-- The blocks before the last ones, each the hash of the one after it. -/
def fillChain (prev : Token) : Nat → List Token → List Token
  | 0, blocks => blocks
  | i + 1, blocks => fillChain (.hash prev) i (.hash prev :: blocks)

/-- `createRefreshChain(cnt)` where `randombytes_buf` gives this seed. -/
def createRefreshChain (seed cnt : Nat) : List Token := fillChain (.seed seed) cnt []

/-- A request that the node has accepted. -/
inductive Accepted where
  | announced (refresh : Option Token) (r : Refresh)
  | refreshed (token : Token) (r : Refresh)
deriving DecidableEq

/-- The environment with the hash of tokens a constructor. -/
def chained (e : Env Token) : Env Token := { e with hashToken := .hash }

/-- What `onannounce` accepts of a request, where it does. -/
def accepted (e : Env Token) (n : Node Token) (id : Option (List UInt8)) (now : Nat)
    (req : Request) : Option Accepted :=
  if (onannounce (chained e) n id now req).2 = .reply then do
    let target ← req.target
    let ann ← req.value.bind e.decode
    match ann.peer with
    | some p =>
      some (.announced ann.refresh
        ⟨target, (threeRelays p).bytes, decide ((e.hash p.publicKey.val).val = target)⟩)
    | none =>
      let token ← ann.refresh
      let r ← n.refreshes.get? (.hash token)
      some (.refreshed token r)
  else none

/-- A node, how many blocks of each chain have been sent, and what the node has accepted. -/
structure Net where
  node : Node Token
  sent : Nat → Nat
  log : List Accepted

def Net.start : Net := ⟨.empty, fun _ => 0, []⟩

def Net.send (s : Net) (c : Nat) : Net :=
  { s with sent := Function.update s.sent c (s.sent c + 1) }

def Net.announce (e : Env Token) (s : Net) (id : Option (List UInt8)) (now : Nat)
    (req : Request) : Net :=
  { s with
    node := (onannounce (chained e) s.node id now req).1
    log := s.log ++ (accepted e s.node id now req).toList }

def Net.unannounce (e : Env Token) (s : Net) (id : Option (List UInt8)) (req : Request) : Net :=
  { s with node := (onunannounce (chained e) s.node id req).1 }

/-- A token that was sent, or one that it hashes to. -/
def Known (count sent : Nat → Nat) (t : Token) : Prop :=
  ∃ c i b j, i < sent c ∧ (createRefreshChain c (count c))[i]? = some b ∧ t = Token.hash^[j] b

/-- Chain `c` has `count c` blocks. They are sent in order; a request reaches the node in any
order and any number of times, with a refresh token that is known. -/
inductive Reach (e : Env Token) (count : Nat → Nat) : Net → Prop where
  | start : Reach e count .start
  | send {s : Net} {c : Nat} : Reach e count s → s.sent c < count c → Reach e count (s.send c)
  | announce {s : Net} (id : Option (List UInt8)) (now : Nat) {req : Request} : Reach e count s →
      (∀ ann t, req.value.bind e.decode = some ann → ann.refresh = some t → Known count s.sent t) →
      Reach e count (s.announce e id now req)
  | unannounce {s : Net} (id : Option (List UInt8)) (req : Request) : Reach e count s →
      Reach e count (s.unannounce e id req)

/-! ## Chains -/

theorem fillChain_get? (prev : Token) (cnt : Nat) (blocks : List Token) (i : Nat) :
    (fillChain prev cnt blocks)[i]? =
      if i < cnt then some (Token.hash^[cnt - i] prev) else blocks[i - cnt]? := by
  induction cnt generalizing prev blocks with
  | zero => simp [fillChain]
  | succ cnt ih =>
    rw [fillChain, ih]
    by_cases hlt : i < cnt
    · rw [if_pos hlt, if_pos (by omega), ← Function.iterate_succ_apply, Nat.succ_eq_add_one,
        show cnt - i + 1 = cnt + 1 - i by omega]
    · rw [if_neg hlt]
      by_cases heq : i = cnt
      · subst heq
        simp
      · rw [if_neg (by omega), show i - cnt = i - (cnt + 1) + 1 by omega]
        rfl

/-- Block `i` is the seed hashed as often as blocks are left. -/
theorem createRefreshChain_get? {seed cnt i : Nat} {b : Token} :
    (createRefreshChain seed cnt)[i]? = some b ↔
      i < cnt ∧ b = Token.hash^[cnt - i] (.seed seed) := by
  rw [createRefreshChain, fillChain_get?]
  split
  · next h => simp [h, eq_comm]
  · next h => simp [h]

theorem hash_injective : Function.Injective Token.hash := fun _ _ h => Token.hash.inj h

/-- How often a seed was hashed, and the seed. -/
theorem iterate_hash_seed_inj {i j a b : Nat}
    (h : Token.hash^[i] (.seed a) = Token.hash^[j] (.seed b)) : i = j ∧ a = b := by
  induction i generalizing j with
  | zero =>
    cases j with
    | zero => exact ⟨rfl, Token.seed.inj h⟩
    | succ j =>
      rw [Function.iterate_succ_apply'] at h
      simp at h
  | succ i ih =>
    rw [Function.iterate_succ_apply'] at h
    cases j with
    | zero => simp at h
    | succ j =>
      rw [Function.iterate_succ_apply'] at h
      obtain ⟨rfl, rfl⟩ := ih (hash_injective h)
      exact ⟨rfl, rfl⟩

theorem Known.lt_sent {count sent : Nat → Nat} {t : Token} (h : Known count sent t) {c i : Nat}
    (ht : (createRefreshChain c (count c))[i]? = some t) : i < sent c := by
  obtain ⟨c', i', b, j, hsent, hb, rfl⟩ := h
  obtain ⟨hi', rfl⟩ := createRefreshChain_get?.mp hb
  obtain ⟨hi, heq⟩ := createRefreshChain_get?.mp ht
  rw [← Function.iterate_add_apply] at heq
  obtain ⟨hcount, rfl⟩ := iterate_hash_seed_inj heq
  omega

theorem Known.mono {count sent sent' : Nat → Nat} {t : Token} (h : Known count sent t)
    (hle : ∀ c, sent c ≤ sent' c) : Known count sent' t := by
  obtain ⟨c, i, b, j, hi, hb, ht⟩ := h
  exact ⟨c, i, b, j, by have := hle c; omega, hb, ht⟩

/-- A known token that hashes to a block is the block after it. -/
theorem Known.next {count sent : Nat → Nat} {t b : Token} (h : Known count sent t) {c i : Nat}
    (hb : (createRefreshChain c (count c))[i]? = some b) (ht : Token.hash t = b) :
    (createRefreshChain c (count c))[i + 1]? = some t := by
  obtain ⟨c', i', b', j, hsent, hb', rfl⟩ := h
  obtain ⟨hi', rfl⟩ := createRefreshChain_get?.mp hb'
  obtain ⟨hi, rfl⟩ := createRefreshChain_get?.mp hb
  rw [← Function.iterate_succ_apply' Token.hash, ← Function.iterate_add_apply] at ht
  obtain ⟨hcount, rfl⟩ := iterate_hash_seed_inj ht
  rw [← Function.iterate_add_apply]
  refine createRefreshChain_get?.mpr ⟨by omega, ?_⟩
  rw [show j + (count c' - i') = count c' - (i + 1) by omega]

/-! ## Below a token -/

/-- The second token is the first one hashed, once or more. -/
def below (t : Token) : Token → Bool
  | .seed _ => false
  | .hash u => decide (u = t) || below t u

theorem below_iff {t u : Token} : below t u = true ↔ ∃ j, u = Token.hash^[j + 1] t := by
  induction u with
  | seed n =>
    simp only [below, Bool.false_eq_true, false_iff, not_exists]
    intro j h
    rw [Function.iterate_succ_apply'] at h
    simp at h
  | hash u ih =>
    rw [below, Bool.or_eq_true, decide_eq_true_iff, ih]
    constructor
    · rintro (rfl | ⟨j, rfl⟩)
      · exact ⟨0, rfl⟩
      · exact ⟨j + 1, (Function.iterate_succ_apply' _ _ _).symm⟩
    · rintro ⟨j, h⟩
      rw [Function.iterate_succ_apply'] at h
      have hu := hash_injective h
      cases j with
      | zero => exact .inl hu
      | succ j => exact .inr ⟨j, hu⟩

theorem below_self (t : Token) : below t t = false := by
  rw [Bool.eq_false_iff]
  intro h
  obtain ⟨j, hj⟩ := below_iff.mp h
  have hdepth : ∀ (k : Nat) (u : Token), sizeOf (Token.hash^[k] u) = sizeOf u + k := by
    intro k u
    induction k with
    | zero => rfl
    | succ k ih =>
      rw [Function.iterate_succ_apply', Token.hash.sizeOf_spec, ih]
      omega
  have := congrArg sizeOf hj
  rw [hdepth] at this
  omega

/-- How often a token was accepted in a refresh. -/
def refreshes (t : Token) : List Accepted → Nat
  | [] => 0
  | .announced _ _ :: log => refreshes t log
  | .refreshed u _ :: log => (if u = t then 1 else 0) + refreshes t log

/-- How often announcements were accepted whose token is below. -/
def announcements (t : Token) : List Accepted → Nat
  | [] => 0
  | .announced (some u) _ :: log => (below t u).toNat + announcements t log
  | .announced none _ :: log => announcements t log
  | .refreshed _ _ :: log => announcements t log

theorem refreshes_append (t : Token) (log log' : List Accepted) :
    refreshes t (log ++ log') = refreshes t log + refreshes t log' := by
  induction log with
  | nil => simp [refreshes]
  | cons a log ih =>
    cases a <;> simp only [List.cons_append, refreshes, ih]
    omega

theorem announcements_append (t : Token) (log log' : List Accepted) :
    announcements t (log ++ log') = announcements t log + announcements t log' := by
  induction log with
  | nil => simp [announcements]
  | cons a log ih =>
    rcases a with ⟨_ | u, r⟩ | ⟨u, r⟩ <;> simp only [List.cons_append, announcements, ih]
    omega

/-! ## Runs -/

/-- The refreshes that bring a record from the token hashed `j` times to this one. -/
def path (r : Refresh) (t : Token) : Nat → List Accepted
  | 0 => []
  | j + 1 => path r (.hash t) j ++ [.refreshed t r]

/-- The record is of an announcement that was accepted, and since then its refreshes down to
this token were, in this order. -/
def Live (log : List Accepted) (t : Token) (r : Refresh) : Prop :=
  ∃ before after j, log = before ++ .announced (some (Token.hash^[j] t)) r :: after ∧
    (path r t j).Sublist after

theorem Live.append {log log' : List Accepted} {t : Token} {r : Refresh} (h : Live log t r) :
    Live (log ++ log') t r := by
  obtain ⟨before, after, j, rfl, hpath⟩ := h
  exact ⟨before, after ++ log', j, by simp, hpath.trans (List.sublist_append_left _ _)⟩

theorem Live.refreshed {log : List Accepted} {t : Token} {r : Refresh} (h : Live log (.hash t) r) :
    Live (log ++ [.refreshed t r]) t r := by
  obtain ⟨before, after, j, rfl, hpath⟩ := h
  refine ⟨before, after ++ [.refreshed t r], j + 1, by simp, ?_⟩
  exact hpath.append (List.Sublist.refl _)

theorem live_announced (log : List Accepted) (t : Token) (r : Refresh) :
    Live (log ++ [.announced (some t) r]) t r :=
  ⟨log, [], 0, rfl, List.Sublist.refl _⟩

variable {e : Env Token} {count : Nat → Nat} {s : Net}

/-- A request is refused and changes nothing, announces, or refreshes. -/
theorem announce_cases (e : Env Token) (s : Net) (id : Option (List UInt8)) (now : Nat)
    (req : Request) :
    (s.announce e id now req = s ∧ accepted e s.node id now req = none) ∨
    (∃ a p r, Announces (chained e) id req a p r ∧
      accepted e s.node id now req = some (.announced a.refresh r) ∧
      Placed s.node (s.announce e id now req).node r req.sender ∧
      (s.announce e id now req).node.refreshes =
        match a.refresh with
        | none => s.node.refreshes
        | some refresh => s.node.refreshes.set refresh r) ∨
    ∃ token r, Refreshes (chained e) s.node id req token r ∧
      accepted e s.node id now req = some (.refreshed token r) ∧
      Placed s.node (s.announce e id now req).node r req.sender ∧
      (s.announce e id now req).node.refreshes =
        (s.node.refreshes.delete (.hash token)).set token r := by
  rcases onannounce_cases (chained e) s.node id now req with
    ⟨hn, hreply⟩ | ⟨a, p, r, hann, hreply, hplaced, hmap⟩ | ⟨token, r, href, hreply, hplaced, hmap⟩
  · have hnone : accepted e s.node id now req = none := by
      unfold accepted
      rw [if_neg hreply]
    exact .inl ⟨by simp [Net.announce, hnone, hn], hnone⟩
  · refine .inr (.inl ⟨a, p, r, hann, ?_, hplaced, hmap.trans (by cases a.refresh <;> rfl)⟩)
    have hdecoded : req.value.bind e.decode = some a := hann.decoded
    have hr : r = ⟨r.k, (threeRelays p).bytes, decide ((e.hash p.publicKey.val).val = r.k)⟩ := by
      have hself := hann.announceSelf
      have hrecord := hann.record
      cases r
      simp only at hself hrecord ⊢
      rw [hself, hrecord]
      rfl
    unfold accepted
    rw [if_pos hreply, hann.target, hdecoded]
    simp only [Option.bind_eq_bind, Option.bind_some, hann.peer]
    rw [← hr]
  · refine .inr (.inr ⟨token, r, href, ?_, hplaced, hmap⟩)
    obtain ⟨a, ha, hp, hrefresh⟩ := href.decoded
    have ha : req.value.bind e.decode = some a := ha
    have hactive : s.node.refreshes.get? (.hash token) = some r := href.active
    obtain ⟨target, htarget⟩ := Option.ne_none_iff_exists'.mp href.complete.1
    unfold accepted
    rw [if_pos hreply, htarget, ha]
    simp [hp, hrefresh, hactive]

/-- What holds in every state: an entry of the refresh map is the last block of its
announcement, the refreshes of a token and the entries below it are no more than the
announcements below it, and accepted tokens are known. -/
structure Inv (count : Nat → Nat) (s : Net) : Prop where
  live : ∀ t r, s.node.refreshes.get? t = some r → Live s.log t r
  counted : ∀ t, refreshes t s.log + s.node.refreshes.total (fun u _ => (below t u).toNat) ≤
    announcements t s.log
  known : ∀ t r, .refreshed t r ∈ s.log → Known count s.sent t

theorem total_set_le {κ ν : Type} [DecidableEq κ] (m : JsMap κ ν) (k : κ) (v : ν) (f : κ → Nat) :
    (m.set k v).total (fun k _ => f k) ≤ m.total (fun k _ => f k) + f k := by
  cases hk : m.get? k with
  | none => exact (JsMap.total_set_new hk v _).le
  | some v₀ =>
    have := JsMap.total_set hk v fun k _ => f k
    omega

theorem Inv.announced (h : Inv count s) {n : Node Token} {refresh : Option Token} {r : Refresh}
    (hmap : n.refreshes = match refresh with
      | none => s.node.refreshes
      | some refresh => s.node.refreshes.set refresh r) :
    Inv count ⟨n, s.sent, s.log ++ [.announced refresh r]⟩ := by
  refine ⟨fun t r' hr' => ?_, fun t => ?_, fun t r' hmem => ?_⟩
  · cases refresh with
    | none =>
      rw [hmap] at hr'
      exact (h.live t r' hr').append
    | some u =>
      rw [hmap, JsMap.get?_set] at hr'
      split at hr'
      · next heq =>
        obtain rfl := Option.some.inj hr'
        subst heq
        exact live_announced _ _ _
      · exact (h.live t r' hr').append
  · have hold := h.counted t
    rw [refreshes_append, announcements_append, hmap]
    cases refresh with
    | none => simpa [refreshes, announcements] using hold
    | some u =>
      have hset := total_set_le s.node.refreshes u r fun u => (below t u).toNat
      simp only [refreshes, announcements]
      omega
  · refine h.known t r' ?_
    simpa using hmem

theorem Inv.refreshed (h : Inv count s) {n : Node Token} {token : Token} {r : Refresh}
    (hactive : s.node.refreshes.get? (.hash token) = some r) (hknown : Known count s.sent token)
    (hmap : n.refreshes = (s.node.refreshes.delete (.hash token)).set token r) :
    Inv count ⟨n, s.sent, s.log ++ [.refreshed token r]⟩ := by
  refine ⟨fun t r' hr' => ?_, fun t => ?_, fun t r' hmem => ?_⟩
  · rw [hmap, JsMap.get?_set] at hr'
    split at hr'
    · next heq =>
      obtain rfl := Option.some.inj hr'
      subst heq
      exact (h.live _ _ hactive).refreshed
    · rw [JsMap.get?_delete] at hr'
      split at hr'
      · simp at hr'
      · exact (h.live t r' hr').append
  · -- the entry moves one block up, across `t` exactly where `t` is the token
    have hold := h.counted t
    have hdelete := JsMap.total_delete hactive fun u _ => (below t u).toNat
    have hset := total_set_le (s.node.refreshes.delete (.hash token)) token r
      fun u => (below t u).toNat
    have hbelow : (below t (.hash token)).toNat =
        (if token = t then 1 else 0) + (below t token).toNat := by
      by_cases heq : token = t
      · subst heq
        simp [below, below_self]
      · simp [below, heq]
    rw [refreshes_append, announcements_append, hmap]
    simp only [refreshes, announcements]
    omega
  · rcases List.mem_append.mp hmem with hmem | hmem
    · exact h.known t r' hmem
    · obtain ⟨rfl, -⟩ := by simpa using hmem
      exact hknown

theorem Reach.inv (h : Reach e count s) : Inv count s := by
  induction h with
  | start =>
    refine ⟨fun t r hr => ?_, fun t => ?_, fun t r hmem => ?_⟩
    · simp [Net.start, Node.empty] at hr
    · simp [Net.start, Node.empty, refreshes]
    · simp [Net.start] at hmem
  | @send s c _ _ ih =>
    refine ⟨ih.live, ih.counted, fun t r hmem => (ih.known t r hmem).mono fun c' => ?_⟩
    dsimp only [Net.send]
    by_cases hc : c' = c
    · subst hc
      simp
    · simp [Function.update_of_ne hc]
  | @announce s id now req _ hknown ih =>
    rcases announce_cases e s id now req with
      ⟨heq, -⟩ | ⟨a, p, r, -, haccepted, -, hmap⟩ | ⟨token, r, href, haccepted, -, hmap⟩
    · rw [heq]
      exact ih
    · have hstep := ih.announced hmap
      simpa [Net.announce, haccepted] using hstep
    · obtain ⟨a, ha, -, hrefresh⟩ := href.decoded
      have hstep := ih.refreshed href.active (hknown a token ha hrefresh) hmap
      simpa [Net.announce, haccepted] using hstep
  | @unannounce s id req _ ih =>
    have hmap : (s.unannounce e id req).node.refreshes = s.node.refreshes := by
      unfold Net.unannounce
      rcases onunannounce_cases (chained e) s.node id req with ⟨hn, -⟩ | ⟨k, p, -, heq⟩
      · rw [hn]
      · rw [heq]
        rfl
    refine ⟨fun t r hr => ih.live t r ?_, fun t => ?_, ih.known⟩
    · rwa [hmap] at hr
    · rw [hmap]
      exact ih.counted t

/-- An accepted refresh carries the block after the last one of its announcement, stores that
announcement's record again and moves its entry. A block is accepted no more often than
announcements further down its chain, and never before it was sent. -/
theorem refresh_chain (h : Reach e count s) :
    (∀ id now req t r, accepted e s.node id now req = some (.refreshed t r) →
      s.node.refreshes.get? (.hash t) = some r ∧ Live s.log (.hash t) r ∧
      (s.announce e id now req).node.refreshes =
        (s.node.refreshes.delete (.hash t)).set t r ∧
      Placed s.node (s.announce e id now req).node r req.sender) ∧
    (∀ t r c i, .refreshed t r ∈ s.log →
      (createRefreshChain c (count c))[i]? = some (.hash t) →
      (createRefreshChain c (count c))[i + 1]? = some t) ∧
    (∀ t, refreshes t s.log ≤ announcements t s.log) ∧
    (∀ c i b r, (createRefreshChain c (count c))[i]? = some b → .refreshed b r ∈ s.log →
      i < s.sent c) := by
  have hinv := h.inv
  refine ⟨fun id now req t r haccepted => ?_, fun t r c i hmem hb => ?_, fun t => ?_,
    fun c i b r hb hmem => (hinv.known b r hmem).lt_sent hb⟩
  · rcases announce_cases e s id now req with
      ⟨-, hnone⟩ | ⟨a, p, r', -, hann, -, -⟩ | ⟨token, r', href, hrefreshed, hplaced, hmap⟩
    · simp [hnone] at haccepted
    · simp [hann] at haccepted
    · obtain ⟨rfl, rfl⟩ := Accepted.refreshed.inj
        (Option.some.inj (hrefreshed.symm.trans haccepted))
      exact ⟨href.active, hinv.live _ _ href.active, hmap, hplaced⟩
  · exact (hinv.known t r hmem).next hb rfl
  · have := hinv.counted t
    omega

/-! ## A repeated announcement -/

/-- Two kinds of messages, both with a block of one chain of three: an announcement, and a
refresh. Every signature is accepted. -/
def threeBlocks : Env Token where
  decode
    | [7, i] => some ⟨some ⟨.replicate 32 2, ⟨[], by decide⟩⟩,
        (createRefreshChain 0 3)[i.toNat]?, some (.replicate 64 3), 0⟩
    | [2, i] => some ⟨none, (createRefreshChain 0 3)[i.toNat]?, none, 0⟩
    | _ => none
  hash b := .replicate 32 (b.foldl (· + ·) 1)
  hashToken := .hash
  tokenBytes _ := List.replicate 32 0
  verify _ _ _ := true
  announce := .replicate 32 4
  unannounce := .replicate 32 5
  alloc n := .replicate n 0

def Net.receive (s : Net) (value : List UInt8) : Net :=
  s.announce threeBlocks (some [9]) 0 ⟨some [7], some [8], some value, ⟨localhost, 1⟩⟩

theorem threeBlocks_decode {b : List UInt8} {ann : Ann Token} {t : Token}
    (h : threeBlocks.decode b = some ann) (ht : ann.refresh = some t) :
    ∃ i : Nat, (createRefreshChain 0 3)[i]? = some t := by
  unfold threeBlocks at h
  dsimp only at h
  split at h
  · next i =>
    obtain rfl := Option.some.inj h
    exact ⟨i.toNat, ht⟩
  · next i =>
    obtain rfl := Option.some.inj h
    exact ⟨i.toNat, ht⟩
  · simp at h

/-- Once all blocks are sent, every message may reach the node. -/
theorem Reach.receive {s : Net} (h : Reach threeBlocks (fun _ => 3) s) (hsent : 3 ≤ s.sent 0)
    (value : List UInt8) : Reach threeBlocks (fun _ => 3) (s.receive value) := by
  refine h.announce (some [9]) 0 fun ann t hann ht => ?_
  obtain ⟨i, hi⟩ := threeBlocks_decode hann ht
  have hlt := (createRefreshChain_get?.mp hi).1
  exact ⟨0, i, t, 0, by omega, hi, rfl⟩

/-- Blocks 0 and 1, block 0 once more, and blocks 2, 1 and 2. -/
def replayed : Net :=
  [[7, 0], [2, 1], [7, 0], [2, 2], [2, 1], [2, 2]].foldl Net.receive
    (((Net.start.send 0).send 0).send 0)

theorem reach_replayed : Reach threeBlocks (fun _ => 3) replayed := by
  have hsends : Reach threeBlocks (fun _ => 3) (((Net.start.send 0).send 0).send 0) :=
    ((Reach.start.send (by decide)).send (by decide)).send (by decide)
  unfold replayed
  refine Reach.receive (Reach.receive (Reach.receive (Reach.receive (Reach.receive
    (Reach.receive hsends ?_ _) ?_ _) ?_ _) ?_ _) ?_ _) ?_ _
  all_goals exact Nat.le_refl 3

theorem refresh_chain_replayed :
    refreshes (.hash (.seed 0)) replayed.log = 2 ∧
    refreshes (.hash (.seed 0)) replayed.log ≤ announcements (.hash (.seed 0)) replayed.log :=
  ⟨by decide +kernel, (refresh_chain reach_replayed).2.2.1 _⟩

/-- Once an announcement was last accepted, every block up its chain is accepted once. -/
def OnceSince (log : List Accepted) : Prop :=
  ∀ before after t r, log = before ++ .announced (some t) r :: after →
    (∀ r', .announced (some t) r' ∉ after) → ∀ u, below u t = true → refreshes u after ≤ 1

theorem not_onceSince :
    ¬ ∀ (e : Env Token) (count : Nat → Nat) (s : Net), Reach e count s → OnceSince s.log := by
  intro h
  have honce := h threeBlocks (fun _ => 3) replayed reach_replayed
  let r : Refresh := ⟨[7], List.replicate 32 2 ++ [0], false⟩
  have hlog : replayed.log =
      [.announced (some (Token.hash^[3] (.seed 0))) r, .refreshed (Token.hash^[2] (.seed 0)) r] ++
        .announced (some (Token.hash^[3] (.seed 0))) r ::
          [.refreshed (.hash (.seed 0)) r, .refreshed (Token.hash^[2] (.seed 0)) r,
            .refreshed (.hash (.seed 0)) r] := by
    decide +kernel
  have htwice := honce _ _ _ _ hlog (by simp) (.hash (.seed 0)) (by decide)
  exact absurd htwice (by decide)

end HyperDht.RefreshChain
