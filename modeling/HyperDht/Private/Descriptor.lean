import HyperDht.Lib.JsMap
import HyperDht.Private.CellCodec

/-!
# Descriptors and quorum reads

`decodeDescriptor` checks the 217-byte wire of a route descriptor; signature
verification, key blinding and the hash are a `Suite`. `readTarget` is the loop
of `_readTarget`: replies arrive one by one, an endpoint votes once, for the
first acceptable wire it sends, and two votes for one wire end the read. Decoded
descriptors are objects on a heap, so that what `clearDescriptor` wipes and what
is returned can be told apart. `read_two_witnesses` is the result.
-/

namespace HyperDht.Private

/-! ## The wire -/

/-- The primitives of the crypto library that descriptors use. `deriveBlindedPublicKey` is `none`
where it throws. -/
structure Suite where
  verify : Bytes → Bytes → Bytes → Bool
  deriveBlindedPublicKey : Bytes → Nat → Option Bytes
  hash : Bytes → Bytes

/-- The two errors a descriptor can fail with. -/
inductive DescriptorError where
  | invalid
  | unavailable
deriving DecidableEq, Repr

def descriptorVersion : UInt8 := 3

def descriptorBytes : Nat := 217

def descriptorBodyBytes : Nat := 153

def maxLifetimeMs : Nat := 15 * 60 * 1000

def descriptorDomain : Bytes :=
  "hyperdht/private-route-descriptor/v3".toList.map fun c => UInt8.ofNat c.toNat

def subarray (b : Bytes) (start stop : Nat) : Bytes := (b.drop start).take (stop - start)

/-- `u64`: eight big-endian bytes. -/
def u64 (b : Bytes) (offset : Nat) : Nat :=
  (subarray b offset (offset + 8)).foldl (fun value byte => value * 256 + byte.toNat) 0

structure Descriptor where
  wire : Bytes
  period : Nat
  blindedPublicKey : Bytes
  entryRelayPublicKey : Bytes
  destinationGuardPublicKey : Bytes
  routeToken : Bytes
  seq : Nat
  expiresAt : Nat
deriving DecidableEq, Repr

def fillZero (b : Bytes) : Bytes := List.replicate b.length 0

/-- `clearDescriptor`: every buffer of the descriptor is zeroed. -/
def Descriptor.clear (d : Descriptor) : Descriptor :=
  { d with
    wire := fillZero d.wire
    blindedPublicKey := fillZero d.blindedPublicKey
    entryRelayPublicKey := fillZero d.entryRelayPublicKey
    destinationGuardPublicKey := fillZero d.destinationGuardPublicKey
    routeToken := fillZero d.routeToken }

/-- Every buffer of the descriptor holds zeros only. -/
def Descriptor.Wiped (d : Descriptor) : Prop := d.clear = d

theorem fillZero_fillZero (b : Bytes) : fillZero (fillZero b) = fillZero b := by
  simp [fillZero]

theorem Descriptor.wiped_clear (d : Descriptor) : d.clear.Wiped := by
  simp [Wiped, clear, fillZero_fillZero]

structure DecodeOptions where
  now : Nat
  expectedPeriod : Option Nat
  expectedDestinationPublicKey : Option Bytes
deriving DecidableEq, Repr

/-- The fields of `wire`, as `decodeDescriptor` reads them. -/
def fieldsOf (wire : Bytes) : Descriptor where
  wire := wire
  period := u64 wire 1
  blindedPublicKey := subarray wire 9 41
  entryRelayPublicKey := subarray wire 41 73
  destinationGuardPublicKey := subarray wire 73 105
  routeToken := subarray wire 105 137
  seq := u64 wire 137
  expiresAt := u64 wire 145

/-- The check against `expectedDestinationPublicKey`; a derivation that throws fails it too. -/
def blindedAsExpected (k : Suite) (o : DecodeOptions) (d : Descriptor) : Bool :=
  match o.expectedDestinationPublicKey with
  | none => true
  | some destination => k.deriveBlindedPublicKey destination d.period == some d.blindedPublicKey

def decodeDescriptor (k : Suite) (o : DecodeOptions) (wire : Bytes) :
    Except DescriptorError Descriptor :=
  if wire.length ≠ descriptorBytes ∨ wire[0]? ≠ some descriptorVersion then .error .invalid
  else
    let d := fieldsOf wire
    if d.entryRelayPublicKey = d.destinationGuardPublicKey then .error .invalid
    else if o.expectedPeriod.any (· ≠ d.period) then .error .invalid
    else if !blindedAsExpected k o d then .error .invalid
    else if !k.verify (wire.drop descriptorBodyBytes)
        (descriptorDomain ++ subarray wire 0 descriptorBodyBytes) d.blindedPublicKey
    then .error .invalid
    else if d.expiresAt ≤ o.now ∨ maxLifetimeMs < d.expiresAt - o.now then .error .unavailable
    else .ok d

/-- The options only decide acceptance, never the decoded fields. -/
theorem decodeDescriptor_eq {k : Suite} {o : DecodeOptions} {wire : Bytes} {d : Descriptor}
    (h : decodeDescriptor k o wire = .ok d) : d = fieldsOf wire := by
  unfold decodeDescriptor at h
  dsimp only at h
  repeat' split at h
  all_goals cases h
  rfl

/-! ## Reading a target -/

/-- A sender: the source compares `host + ':' + port`, and a port has no colon. -/
structure Endpoint where
  host : String
  port : Nat
deriving DecidableEq, Repr

structure ReadOptions where
  expectedPeriod : Option Nat
  expectedDestinationPublicKey : Option Bytes
  expectedWire : Option Bytes
deriving DecidableEq, Repr

/-- The options `_readTarget` passes on, at the time of a reply. -/
def ReadOptions.at (o : ReadOptions) (now : Nat) : DecodeOptions where
  now := now
  expectedPeriod := o.expectedPeriod
  expectedDestinationPublicKey := o.expectedDestinationPublicKey

/-- One turn of the `for await` loop: a reply, with the clock as it is then, or an exception of
`operation.check()` or of the query. -/
inductive Turn where
  | reply (now : Nat) (value : Option Bytes) (sender : Option Endpoint)
  | thrown
deriving DecidableEq, Repr

/-- An entry of `candidates`: the descriptor is an object of the heap. -/
structure Candidate where
  descriptor : Nat
  count : Nat
deriving DecidableEq, Repr

/-- The local variables of `_readTarget`, the heap of decoded descriptors, and the votes counted
so far with who cast them. -/
structure Reader where
  heap : List Descriptor
  candidates : JsMap Bytes Candidate
  respondents : List Endpoint
  votes : List (Option Endpoint × Bytes)

def minReadQuorum : Nat := 2

namespace Reader

def start : Reader := ⟨[], .empty, [], []⟩

/-- Whether the reply's sender has voted already. -/
def voted (r : Reader) : Option Endpoint → Bool
  | none => false
  | some e => decide (e ∈ r.respondents)

/-- One vote for the wire of a decoded descriptor: the first makes a candidate of it, a later one
is counted and its copy wiped. The second component is `best`. -/
def vote (r : Reader) (sender : Option Endpoint) (descriptor : Descriptor) :
    Reader × Option Nat :=
  let respondents := r.respondents ++ sender.toList
  let votes := r.votes ++ [(sender, descriptor.wire)]
  match r.candidates.get? descriptor.wire with
  | some candidate =>
    let candidate := { candidate with count := candidate.count + 1 }
    ({ heap := r.heap ++ [descriptor.clear]
       candidates := r.candidates.set descriptor.wire candidate
       respondents := respondents
       votes := votes },
      if minReadQuorum ≤ candidate.count then some candidate.descriptor else none)
  | none =>
    let candidate : Candidate := { descriptor := r.heap.length, count := 1 }
    ({ heap := r.heap ++ [descriptor]
       candidates := r.candidates.set descriptor.wire candidate
       respondents := respondents
       votes := votes },
      if minReadQuorum ≤ candidate.count then some candidate.descriptor else none)

/-- The body of the loop for one reply. -/
def receive (k : Suite) (o : ReadOptions) (r : Reader) (now : Nat) (value : Option Bytes)
    (sender : Option Endpoint) : Reader × Option Nat :=
  match value with
  | none => (r, none)
  | some bytes =>
    if r.voted sender then (r, none)
    else
      match decodeDescriptor k (o.at now) bytes with
      | .error _ => (r, none)
      | .ok descriptor =>
        if o.expectedWire.any (· ≠ descriptor.wire) then
          ({ r with heap := r.heap ++ [descriptor.clear] }, none)
        else r.vote sender descriptor

end Reader

/-- How the `try` block was left: with a value (`null` is `none`) or by an exception. -/
inductive ReadResult where
  | returned (best : Option Nat)
  | thrown
deriving DecidableEq, Repr

namespace Reader

def loop (k : Suite) (o : ReadOptions) : Reader → List Turn → Reader × ReadResult
  | r, [] => (r, .returned none)
  | r, .thrown :: _ => (r, .thrown)
  | r, .reply now value sender :: turns =>
    match r.receive k o now value sender with
    | (r, some best) => (r, .returned (some best))
    | (r, none) => loop k o r turns

/-- The `finally` block: every candidate but a returned one is wiped. -/
def wipe (r : Reader) (result : ReadResult) : Reader :=
  { r with
    heap := r.candidates.values.foldl
      (fun heap c =>
        if result = .returned (some c.descriptor) then heap
        else heap.modify c.descriptor Descriptor.clear) r.heap }

end Reader

/-- `_readTarget` over the replies it sees. -/
def readTarget (k : Suite) (o : ReadOptions) (turns : List Turn) : Reader × ReadResult :=
  let (r, result) := Reader.start.loop k o turns
  (r.wipe result, result)

/-! ## What a reply does -/

/-- Whether a reply with this value may vote at this time. -/
def accepts (k : Suite) (o : ReadOptions) (now : Nat) (wire : Bytes) : Bool :=
  (decodeDescriptor k (o.at now) wire).isOk && !o.expectedWire.any (· ≠ wire)

namespace Reader

variable {k : Suite} {o : ReadOptions}

/-- A reply votes when its sender has not voted and its value is acceptable; otherwise it leaves
at most a wiped copy behind. -/
theorem receive_cases (r : Reader) (now : Nat) (value : Option Bytes) (sender : Option Endpoint) :
    (∃ wire, value = some wire ∧ r.voted sender = false ∧ accepts k o now wire = true ∧
      r.receive k o now value sender = r.vote sender (fieldsOf wire)) ∨
    ((∀ wire, value = some wire → r.voted sender = true ∨ accepts k o now wire = false) ∧
      ∃ copies : List Descriptor, (∀ d ∈ copies, d.Wiped) ∧
        r.receive k o now value sender = ({ r with heap := r.heap ++ copies }, none)) := by
  cases value with
  | none => exact .inr ⟨(fun wire h => nomatch h), [], by simp, by simp [receive]⟩
  | some bytes =>
    by_cases hv : r.voted sender = true
    · refine .inr ⟨fun _ _ => .inl hv, [], by simp, ?_⟩
      simp [receive, hv]
    · rw [Bool.not_eq_true] at hv
      cases hd : decodeDescriptor k (o.at now) bytes with
      | error e =>
        refine .inr ⟨?_, [], by simp, by simp [receive, hv, hd]⟩
        rintro wire ⟨rfl⟩
        exact .inr (by simp [accepts, hd, Except.isOk, Except.toBool])
      | ok d =>
        obtain rfl := decodeDescriptor_eq hd
        by_cases hw : o.expectedWire.any (· ≠ bytes) = true
        · refine .inr ⟨?_, [(fieldsOf bytes).clear], ?_, ?_⟩
          · rintro wire ⟨rfl⟩
            exact .inr (by rw [accepts, hw]; simp)
          · intro d hd
            rw [List.mem_singleton.mp hd]
            exact Descriptor.wiped_clear _
          · simp only [receive, hv, hd, Bool.false_eq_true, if_false]
            exact if_pos hw
        · refine .inl ⟨bytes, rfl, hv, ?_, ?_⟩
          · simp only [accepts, hd, Bool.not_eq_true] at hw ⊢
            rw [hw]
            rfl
          · simp only [receive, hv, hd, Bool.false_eq_true, if_false]
            exact if_neg hw

/-- The accounting of a read: candidates are intact, every other decoded copy is wiped, counts
are votes, and every vote was cast by an acceptable reply among those seen. -/
structure Fair (k : Suite) (o : ReadOptions) (seen : List Turn) (r : Reader) : Prop where
  intact : ∀ (wire : Bytes) (c : Candidate), r.candidates.get? wire = some c →
    r.heap[c.descriptor]? = some (fieldsOf wire)
  wiped : ∀ (i : Nat) (d : Descriptor), r.heap[i]? = some d →
    d.Wiped ∨ ∃ (wire : Bytes) (c : Candidate),
      r.candidates.get? wire = some c ∧ c.descriptor = i
  count : ∀ wire : Bytes,
    r.votes.countP (·.2 = wire) = ((r.candidates.get? wire).map Candidate.count).getD 0
  respondents : r.respondents = r.votes.filterMap Prod.fst
  once : r.respondents.Nodup
  cast : ∀ (sender : Option Endpoint) (wire : Bytes), (sender, wire) ∈ r.votes →
    ∃ now : Nat, Turn.reply now (some wire) sender ∈ seen ∧ accepts k o now wire = true

theorem fair_start (k : Suite) (o : ReadOptions) : Fair k o [] start := by
  constructor <;> simp [start]

theorem Fair.mono {seen seen' : List Turn} {r : Reader} (h : Fair k o seen r)
    (hs : seen ⊆ seen') : Fair k o seen' r :=
  { h with
    cast := by
      intro sender wire hm
      obtain ⟨now, hn, ha⟩ := h.cast sender wire hm
      exact ⟨now, hs hn, ha⟩ }

theorem Fair.copies {seen : List Turn} {r : Reader} (h : Fair k o seen r)
    {copies : List Descriptor} (hc : ∀ d ∈ copies, d.Wiped) :
    Fair k o seen { r with heap := r.heap ++ copies } :=
  { h with
    intact := by
      intro wire c hg
      have := h.intact wire c hg
      rw [List.getElem?_append_left (List.getElem?_eq_some_iff.mp this).1, this]
    wiped := by
      intro i d hd
      rw [List.getElem?_append] at hd
      split at hd
      · exact h.wiped i d hd
      · exact .inl (hc d (List.mem_of_getElem? hd)) }

/-- The parts of `Fair` that a vote changes in the same way in both of its branches. -/
theorem Fair.voted {seen : List Turn} {r : Reader} (h : Fair k o seen r) {now : Nat}
    {wire : Bytes} {sender : Option Endpoint} (hv : r.voted sender = false)
    (ha : accepts k o now wire = true) (hs : Turn.reply now (some wire) sender ∈ seen) :
    r.respondents ++ sender.toList = (r.votes ++ [(sender, wire)]).filterMap Prod.fst ∧
      (r.respondents ++ sender.toList).Nodup ∧
      ∀ (e : Option Endpoint) (w : Bytes), (e, w) ∈ r.votes ++ [(sender, wire)] →
        ∃ n : Nat, Turn.reply n (some w) e ∈ seen ∧ accepts k o n w = true := by
  refine ⟨?_, ?_, ?_⟩
  · rw [List.filterMap_append, ← h.respondents]
    cases sender <;> rfl
  · cases sender with
    | none => simpa using h.once
    | some e =>
      have : e ∉ r.respondents := by simpa [Reader.voted] using hv
      refine h.once.append (List.nodup_singleton e) ?_
      intro a ha' hb
      rw [Option.toList_some, List.mem_singleton] at hb
      exact this (hb ▸ ha')
  · intro e w hm
    rcases List.mem_append.mp hm with hm | hm
    · exact h.cast e w hm
    · obtain ⟨rfl, rfl⟩ := Prod.mk.inj (List.mem_singleton.mp hm)
      exact ⟨now, hs, ha⟩

theorem countP_vote (votes : List (Option Endpoint × Bytes)) (sender : Option Endpoint)
    (wire w : Bytes) :
    (votes ++ [(sender, wire)]).countP (·.2 = w) =
      votes.countP (·.2 = w) + if w = wire then 1 else 0 := by
  rw [List.countP_append, List.countP_singleton]
  by_cases h : w = wire
  · simp [h]
  · simp [h, Ne.symm h]

theorem Fair.vote {seen : List Turn} {r : Reader} (h : Fair k o seen r) {now : Nat}
    {wire : Bytes} {sender : Option Endpoint} (hv : r.voted sender = false)
    (ha : accepts k o now wire = true) (hs : Turn.reply now (some wire) sender ∈ seen) :
    Fair k o seen (r.vote sender (fieldsOf wire)).1 := by
  obtain ⟨hr, hn, hc⟩ := h.voted hv ha hs
  have hwire : (fieldsOf wire).wire = wire := rfl
  unfold Reader.vote
  rw [hwire]
  cases hg : r.candidates.get? wire with
  | some candidate =>
    have hi := h.intact wire candidate hg
    have hkeys : ∀ w c, r.candidates.get? w = some c → ∃ c',
        (r.candidates.set wire { candidate with count := candidate.count + 1 }).get? w = some c' ∧
          c'.descriptor = c.descriptor := by
      intro w c hw
      rw [JsMap.get?_set]
      split
      · next heq =>
        subst heq
        obtain rfl := Option.some.inj (hg.symm.trans hw)
        exact ⟨_, rfl, rfl⟩
      · exact ⟨c, hw, rfl⟩
    refine ⟨?_, ?_, ?_, hr, hn, hc⟩
    · intro w c hw
      dsimp only at hw ⊢
      have hold : r.heap[c.descriptor]? = some (fieldsOf w) := by
        rw [JsMap.get?_set] at hw
        split at hw
        · next heq =>
          obtain rfl := Option.some.inj hw
          rw [heq]
          exact hi
        · exact h.intact w c hw
      rw [List.getElem?_append_left (List.getElem?_eq_some_iff.mp hold).1, hold]
    · intro i d hd
      dsimp only at hd ⊢
      rw [List.getElem?_append] at hd
      split at hd
      · rcases h.wiped i d hd with hw | ⟨w, c, hw, hi'⟩
        · exact .inl hw
        · obtain ⟨c', hc', he⟩ := hkeys w c hw
          exact .inr ⟨w, c', hc', he.trans hi'⟩
      · rw [List.mem_singleton.mp (List.mem_of_getElem? hd)]
        exact .inl (Descriptor.wiped_clear _)
    · intro w
      dsimp only
      rw [countP_vote, h.count, JsMap.get?_set]
      by_cases heq : w = wire
      · simp [heq, hg]
      · simp [heq]
  | none =>
    refine ⟨?_, ?_, ?_, hr, hn, hc⟩
    · intro w c hw
      dsimp only at hw ⊢
      rw [JsMap.get?_set] at hw
      split at hw
      · next heq =>
        obtain rfl := Option.some.inj hw
        rw [heq]
        simp
      · have hold := h.intact w c hw
        rw [List.getElem?_append_left (List.getElem?_eq_some_iff.mp hold).1, hold]
    · intro i d hd
      dsimp only at hd ⊢
      rw [List.getElem?_append] at hd
      split at hd
      · rcases h.wiped i d hd with hw | ⟨w, c, hw, hi'⟩
        · exact .inl hw
        · refine .inr ⟨w, c, ?_, hi'⟩
          rw [JsMap.get?_set_ne _ _ ?_, hw]
          rintro rfl
          cases hg.symm.trans hw
      · next hlt =>
        have hz := (List.getElem?_eq_some_iff.mp hd).1
        rw [List.length_singleton] at hz
        exact .inr ⟨wire, _, JsMap.get?_set_self _ _ _, by dsimp only; omega⟩
    · intro w
      dsimp only
      rw [countP_vote, h.count, JsMap.get?_set]
      by_cases heq : w = wire
      · simp [heq, hg]
      · simp [heq]

/-- A read ends as soon as a wire has two votes, and only then. -/
theorem best_of_vote {r : Reader} {sender : Option Endpoint} {wire : Bytes} {i : Nat}
    (h : (r.vote sender (fieldsOf wire)).2 = some i) :
    ∃ c, (r.vote sender (fieldsOf wire)).1.candidates.get? wire = some c ∧ c.descriptor = i ∧
      minReadQuorum ≤ c.count := by
  have hwire : (fieldsOf wire).wire = wire := rfl
  unfold Reader.vote at h ⊢
  rw [hwire] at h ⊢
  cases hg : r.candidates.get? wire with
  | some candidate =>
    simp only [hg] at h ⊢
    split at h
    · next hq => exact ⟨_, JsMap.get?_set_self _ _ _, Option.some.inj h, hq⟩
    · cases h
  | none =>
    simp only [hg] at h ⊢
    split at h
    · next hq => exact ⟨_, JsMap.get?_set_self _ _ _, Option.some.inj h, hq⟩
    · cases h

theorem votes_vote (r : Reader) (sender : Option Endpoint) (wire : Bytes) :
    (r.vote sender (fieldsOf wire)).1.votes = r.votes ++ [(sender, wire)] := by
  unfold Reader.vote
  dsimp only
  split <;> rfl

theorem vote_second {seen : List Turn} {r : Reader} (h : Fair k o seen r)
    (sender : Option Endpoint) {wire : Bytes} (hc : 0 < r.votes.countP (·.2 = wire)) :
    ∃ i, (r.vote sender (fieldsOf wire)).2 = some i := by
  rw [h.count] at hc
  cases hg : r.candidates.get? wire with
  | none => simp [hg] at hc
  | some candidate =>
    simp only [hg, Option.map_some, Option.getD_some] at hc
    have hwire : (fieldsOf wire).wire = wire := rfl
    refine ⟨candidate.descriptor, ?_⟩
    unfold Reader.vote
    simp only [hwire, hg]
    rw [if_pos (by unfold minReadQuorum; omega)]

theorem Fair.receive {seen : List Turn} {r : Reader} (h : Fair k o seen r) {now : Nat}
    {value : Option Bytes} {sender : Option Endpoint}
    (hs : Turn.reply now value sender ∈ seen) :
    Fair k o seen (r.receive k o now value sender).1 := by
  rcases r.receive_cases (k := k) (o := o) now value sender with
    ⟨wire, rfl, hv, ha, he⟩ | ⟨-, copies, hc, he⟩
  · rw [he]
    exact h.vote hv ha hs
  · rw [he]
    exact h.copies hc

/-- The whole loop keeps the accounting, and what it returns is a candidate with a quorum. -/
theorem Fair.loop {seen : List Turn} {r : Reader} (h : Fair k o seen r) (turns : List Turn) :
    Fair k o (seen ++ turns) (r.loop k o turns).1 ∧
      ∀ i, (r.loop k o turns).2 = .returned (some i) → ∃ wire c,
        (r.loop k o turns).1.candidates.get? wire = some c ∧ c.descriptor = i ∧
          minReadQuorum ≤ c.count := by
  induction turns generalizing r seen with
  | nil => exact ⟨by simpa [Reader.loop] using h, fun i hi => by simp [Reader.loop] at hi⟩
  | cons turn turns ih =>
    cases turn with
    | thrown =>
      refine ⟨h.mono (by simp), fun i hi => ?_⟩
      simp [Reader.loop] at hi
    | reply now value sender =>
      have h' : Fair k o (seen ++ [.reply now value sender]) r := h.mono (by simp)
      have hr := h'.receive (List.mem_append_right seen (List.mem_singleton_self _))
      have hb : ∀ i, (r.receive k o now value sender).2 = some i → ∃ wire c,
          (r.receive k o now value sender).1.candidates.get? wire = some c ∧ c.descriptor = i ∧
            minReadQuorum ≤ c.count := by
        intro i hi
        rcases r.receive_cases (k := k) (o := o) now value sender with
          ⟨wire, rfl, -, -, he⟩ | ⟨-, copies, -, he⟩
        · rw [he] at hi ⊢
          exact ⟨wire, best_of_vote hi⟩
        · rw [he] at hi
          cases hi
      unfold Reader.loop
      split
      · next r' best he =>
        rw [he] at hr hb
        refine ⟨hr.mono (by simp), fun i hi => ?_⟩
        simp only [ReadResult.returned.injEq] at hi
        exact hb i hi
      · next r' he =>
        rw [he] at hr
        have := ih hr
        rwa [List.append_assoc] at this

/-! ## The `finally` block -/

/-- Clearing an object leaves the others alone. -/
theorem getElem?_wipe (result : ReadResult) (cs : List Candidate) (heap : List Descriptor)
    (i : Nat) :
    (cs.foldl (fun heap c =>
        if result = .returned (some c.descriptor) then heap
        else heap.modify c.descriptor Descriptor.clear) heap)[i]? =
      if result ≠ .returned (some i) ∧ ∃ c ∈ cs, c.descriptor = i then
        heap[i]?.map Descriptor.clear
      else heap[i]? := by
  induction cs generalizing heap with
  | nil => simp
  | cons c cs ih =>
    rw [List.foldl_cons, ih]
    have hclear : ∀ d : Descriptor, d.clear.clear = d.clear := Descriptor.wiped_clear
    by_cases hi : c.descriptor = i
    · subst hi
      by_cases hr : result = .returned (some c.descriptor)
      · simp [hr]
      · by_cases hex : ∃ c' ∈ cs, c'.descriptor = c.descriptor
        · simp [hr, hex, Function.comp_def, hclear]
        · simp [hr, hex]
    · by_cases hr : result = .returned (some c.descriptor)
      · simp [hr, hi]
      · simp [hr, hi]

end Reader

/-! ## Two independent witnesses -/

/-- A reply as it reaches a read: the time, the value and the endpoint it came over. -/
structure Delivery where
  now : Nat
  value : Option Bytes
  endpoint : Endpoint
deriving DecidableEq, Repr

/-- The loop's turn for a delivery. -/
def Delivery.turn (x : Delivery) : Turn := .reply x.now x.value (some x.endpoint)

def Delivery.VotesFor (k : Suite) (o : ReadOptions) (x : Delivery) (wire : Bytes) : Prop :=
  x.value = some wire ∧ accepts k o x.now wire = true

/-- The turns of a read: the deliveries, and at the end possibly a cancellation. -/
def turnsOf (sent : List Delivery) (cancelled : Bool) : List Turn :=
  sent.map Delivery.turn ++ if cancelled then [.thrown] else []

section Witnesses

variable {k : Suite} {o : ReadOptions}

theorem mem_turnsOf {sent : List Delivery} (cancelled : Bool) {now : Nat} {value : Option Bytes}
    {sender : Option Endpoint} (h : Turn.reply now value sender ∈ turnsOf sent cancelled) :
    ∃ x ∈ sent, x.now = now ∧ x.value = value ∧ sender = some x.endpoint := by
  rcases List.mem_append.mp h with h | h
  · obtain ⟨x, hx, he⟩ := List.mem_map.mp h
    simp only [Delivery.turn, Turn.reply.injEq] at he
    exact ⟨x, hx, he.1, he.2.1, he.2.2.symm⟩
  · cases cancelled <;> simp at h

/-- A quorum of votes comes from two different endpoints. -/
theorem two_voters {sent : List Delivery} {cancelled : Bool} {r : Reader}
    (h : r.Fair k o (turnsOf sent cancelled)) {wire : Bytes}
    (hq : minReadQuorum ≤ r.votes.countP (·.2 = wire)) :
    ∃ x ∈ sent, ∃ y ∈ sent, x.endpoint ≠ y.endpoint ∧ x.VotesFor k o wire ∧
      y.VotesFor k o wire := by
  have hlen : 2 ≤ (r.votes.filter (·.2 = wire)).length := by
    rw [← List.countP_eq_length_filter]
    exact hq
  obtain ⟨a, b, rest, hl⟩ : ∃ a b rest, r.votes.filter (·.2 = wire) = a :: b :: rest := by
    generalize r.votes.filter (·.2 = wire) = l at hlen
    match l with
    | [] => simp at hlen
    | [a] => simp at hlen
    | a :: b :: rest => exact ⟨a, b, rest, rfl⟩
  have voter : ∀ v ∈ r.votes.filter (·.2 = wire), ∃ x ∈ sent, v.1 = some x.endpoint ∧
      x.VotesFor k o wire := by
    intro v hmem
    obtain ⟨hv, hw⟩ := List.mem_filter.mp hmem
    obtain rfl : v.2 = wire := by simpa using hw
    obtain ⟨now, ht, ha⟩ := h.cast v.1 v.2 hv
    obtain ⟨x, hx, rfl, hval, hsender⟩ := mem_turnsOf cancelled ht
    exact ⟨x, hx, hsender, hval, ha⟩
  obtain ⟨x, hx, hax, hvx⟩ := voter a (by rw [hl]; simp)
  obtain ⟨y, hy, hby, hvy⟩ := voter b (by rw [hl]; simp)
  refine ⟨x, hx, y, hy, ?_, hvx, hvy⟩
  -- the two voters are two entries of the duplicate-free list of respondents
  have hsub : ((r.votes.filter (·.2 = wire)).filterMap Prod.fst).Nodup := by
    refine List.Nodup.sublist ?_ h.once
    rw [h.respondents]
    exact List.filter_sublist.filterMap Prod.fst
  rw [hl, List.filterMap_cons_some hax, List.filterMap_cons_some hby] at hsub
  intro he
  exact (List.nodup_cons.mp hsub).1 (by rw [he]; simp)

theorem one_vote {seen : List Turn} {r : Reader} (h : r.Fair k o seen) (e : Endpoint) :
    r.votes.countP (·.1 = some e) ≤ 1 := by
  have hc : r.votes.countP (·.1 = some e) = r.respondents.count e := by
    rw [h.respondents]
    induction r.votes with
    | nil => rfl
    | cons v votes ih =>
      rw [List.countP_cons, ih]
      cases hv : v.1 with
      | none => simp [hv]
      | some e' => simp [hv, List.count_cons]
  rw [hc]
  exact List.nodup_iff_count_le_one.mp h.once e

/-- A loop without cancellation either has returned or goes on with the rest. -/
theorem loop_append (r : Reader) (sent : List Delivery) (turns : List Turn) :
    (∃ i, (r.loop k o (sent.map Delivery.turn ++ turns)).2 = .returned (some i)) ∨
      r.loop k o (sent.map Delivery.turn ++ turns) =
        (r.loop k o (sent.map Delivery.turn)).1.loop k o turns := by
  induction sent generalizing r with
  | nil => exact .inr (by simp [Reader.loop])
  | cons x sent ih =>
    simp only [List.map_cons, List.cons_append, Delivery.turn, Reader.loop]
    split
    · next r' best he => exact .inl ⟨best, rfl⟩
    · next r' he => exact ih r'

theorem votes_receive (r : Reader) (now : Nat) (value : Option Bytes) (sender : Option Endpoint) :
    r.votes <+: (r.receive k o now value sender).1.votes := by
  rcases r.receive_cases (k := k) (o := o) now value sender with
    ⟨wire, rfl, -, -, he⟩ | ⟨-, copies, -, he⟩
  · rw [he, Reader.votes_vote]
    exact List.prefix_append _ _
  · exact ⟨[], by rw [he, List.append_nil]⟩

theorem votes_loop (r : Reader) (turns : List Turn) : r.votes <+: (r.loop k o turns).1.votes := by
  induction turns generalizing r with
  | nil => exact List.prefix_rfl
  | cons turn turns ih =>
    cases turn with
    | thrown => exact List.prefix_rfl
    | reply now value sender =>
      have hr := votes_receive (k := k) (o := o) r now value sender
      unfold Reader.loop
      split
      · next r' best he =>
        rw [he] at hr
        exact hr
      · next r' he =>
        rw [he] at hr
        exact hr.trans (ih r')

/-- An endpoint that sent nothing acceptable has not voted. -/
theorem voted_false {sent : List Delivery} {r : Reader}
    (h : r.Fair k o (sent.map Delivery.turn)) {e : Endpoint}
    (hn : ∀ z ∈ sent, z.endpoint = e → ∀ w, ¬ z.VotesFor k o w) : r.voted (some e) = false := by
  by_contra hv
  have hm : e ∈ r.respondents := by simpa [Reader.voted] using hv
  rw [h.respondents, List.mem_filterMap] at hm
  obtain ⟨⟨sender, wire⟩, hvote, rfl⟩ := hm
  obtain ⟨now, ht, ha⟩ := h.cast _ wire hvote
  obtain ⟨z, hz, rfl, hval, hsender⟩ :=
    mem_turnsOf false (by simpa [turnsOf] using ht)
  exact hn z hz (Option.some.inj hsender).symm wire ⟨hval, ha⟩

theorem loop_vote {r : Reader} {x : Delivery} {wire : Bytes} (hv : r.voted (some x.endpoint) = false)
    (hx : x.VotesFor k o wire) (turns : List Turn) :
    r.loop k o (x.turn :: turns) =
      match r.vote (some x.endpoint) (fieldsOf wire) with
      | (r, some best) => (r, .returned (some best))
      | (r, none) => r.loop k o turns := by
  rcases r.receive_cases (k := k) (o := o) x.now x.value (some x.endpoint) with
    ⟨w, hw, -, -, he⟩ | ⟨hno, -⟩
  · obtain rfl : w = wire := Option.some.inj (hw.symm.trans hx.1)
    simp only [Delivery.turn, Reader.loop, he]
  · rcases hno wire hx.1 with h | h
    · rw [hv] at h
      cases h
    · rw [hx.2] at h
      cases h

/-- Two first votes for one wire end the read with a descriptor. -/
theorem returned_of_two {pre mid : List Delivery} {x y : Delivery} {wire : Bytes}
    (post : List Turn) (hx : x.VotesFor k o wire) (hy : y.VotesFor k o wire)
    (hxn : ∀ z ∈ pre, z.endpoint = x.endpoint → ∀ w, ¬ z.VotesFor k o w)
    (hyn : ∀ z ∈ pre ++ x :: mid, z.endpoint = y.endpoint → ∀ w, ¬ z.VotesFor k o w) :
    ∃ i, (Reader.start.loop k o
      (pre.map Delivery.turn ++ x.turn :: (mid.map Delivery.turn ++ y.turn :: post))).2 =
        .returned (some i) := by
  rcases loop_append Reader.start pre (x.turn :: (mid.map Delivery.turn ++ y.turn :: post)) with
    h | h
  · exact h
  rw [h]
  have f₁ := ((Reader.fair_start k o).loop (pre.map Delivery.turn)).1
  generalize (Reader.start.loop k o (pre.map Delivery.turn)).1 = r₁ at f₁ ⊢
  rw [List.nil_append] at f₁
  have hv₁ := voted_false f₁ hxn
  rw [loop_vote hv₁ hx]
  have f₂ : Reader.Fair k o ((pre ++ [x]).map Delivery.turn)
      (r₁.vote (some x.endpoint) (fieldsOf wire)).1 := by
    rw [List.map_append]
    refine (f₁.mono (by simp)).vote hv₁ hx.2 ?_
    rw [← hx.1]
    simp [Delivery.turn]
  have hc₂ : 0 < (r₁.vote (some x.endpoint) (fieldsOf wire)).1.votes.countP (·.2 = wire) := by
    rw [Reader.votes_vote, Reader.countP_vote]
    simp
  split
  · next r₂ best he => exact ⟨best, rfl⟩
  · next r₂ he =>
    rw [he] at f₂ hc₂
    rcases loop_append r₂ mid (y.turn :: post) with h | h
    · exact h
    rw [h]
    have f₃ := (f₂.loop (mid.map Delivery.turn)).1
    have hc₃ := hc₂.trans_le
      (votes_loop (k := k) (o := o) r₂ (mid.map Delivery.turn)).sublist.countP_le
    generalize (r₂.loop k o (mid.map Delivery.turn)).1 = r₃ at f₃ hc₃ ⊢
    rw [← List.map_append] at f₃
    have hv₃ := voted_false f₃ (by simpa using hyn)
    rw [loop_vote hv₃ hy]
    obtain ⟨i, hi⟩ := Reader.vote_second f₃ (some y.endpoint) hc₃
    split
    · next r₄ best he => exact ⟨best, rfl⟩
    · next r₄ he =>
      rw [he] at hi
      cases hi

theorem decode_of_accepts {now : Nat} {wire : Bytes} (h : accepts k o now wire = true) :
    decodeDescriptor k (o.at now) wire = .ok (fieldsOf wire) := by
  rw [accepts, Bool.and_eq_true] at h
  cases hd : decodeDescriptor k (o.at now) wire with
  | error e => simp [hd, Except.isOk, Except.toBool] at h
  | ok d => rw [decodeDescriptor_eq hd]

end Witnesses

/-- Reading needs two independent witnesses, for every sequence of deliveries: what is returned is
an intact descriptor whose wire two different endpoints sent and `decodeDescriptor` accepted; no
endpoint has more than one vote and the counts are the votes; two endpoints whose first acceptable
replies agree end the read with a descriptor; and every other decoded object is wiped. -/
theorem read_two_witnesses (k : Suite) (o : ReadOptions) (sent : List Delivery)
    (cancelled : Bool) :
    let out := readTarget k o (turnsOf sent cancelled)
    (∀ i, out.2 = .returned (some i) → ∃ wire, out.1.heap[i]? = some (fieldsOf wire) ∧
      ∃ x ∈ sent, ∃ y ∈ sent, x.endpoint ≠ y.endpoint ∧
        (x.value = some wire ∧ decodeDescriptor k (o.at x.now) wire = .ok (fieldsOf wire)) ∧
        (y.value = some wire ∧ decodeDescriptor k (o.at y.now) wire = .ok (fieldsOf wire))) ∧
    ((∀ e, out.1.votes.countP (·.1 = some e) ≤ 1) ∧
      ∀ wire c, out.1.candidates.get? wire = some c →
        c.count = out.1.votes.countP (·.2 = wire)) ∧
    (∀ (pre mid post : List Delivery) (x y : Delivery) (wire : Bytes),
      sent = pre ++ x :: (mid ++ y :: post) → x.endpoint ≠ y.endpoint →
      x.VotesFor k o wire → y.VotesFor k o wire →
      (∀ z ∈ pre, z.endpoint = x.endpoint → ∀ w, ¬ z.VotesFor k o w) →
      (∀ z ∈ pre ++ x :: mid, z.endpoint = y.endpoint → ∀ w, ¬ z.VotesFor k o w) →
      ∃ i, out.2 = .returned (some i)) ∧
    ∀ i d, out.1.heap[i]? = some d → out.2 ≠ .returned (some i) → d.Wiped := by
  intro out
  obtain ⟨fair, hbest⟩ := (Reader.fair_start k o).loop (turnsOf sent cancelled)
  rw [List.nil_append] at fair
  refine ⟨?_, ⟨?_, ?_⟩, ?_, ?_⟩
  · intro i hi
    obtain ⟨wire, c, hg, rfl, hq⟩ := hbest i hi
    have hcount := fair.count wire
    rw [hg, Option.map_some, Option.getD_some] at hcount
    obtain ⟨x, hx, y, hy, hne, hvx, hvy⟩ := two_voters fair (hcount ▸ hq)
    refine ⟨wire, ?_, x, hx, y, hy, hne, ⟨hvx.1, decode_of_accepts hvx.2⟩,
      hvy.1, decode_of_accepts hvy.2⟩
    refine (Reader.getElem?_wipe _ _ _ _).trans ?_
    rw [if_neg fun h => h.1 hi]
    exact fair.intact wire c hg
  · intro e
    exact one_vote fair e
  · intro wire c hg
    have hcount := fair.count wire
    rw [show (Reader.start.loop k o (turnsOf sent cancelled)).1.candidates.get? wire = some c
      from hg] at hcount
    exact hcount.symm
  · intro pre mid post x y wire hsent _ hx hy hxn hyn
    have := returned_of_two (post.map Delivery.turn ++ if cancelled then [.thrown] else [])
      hx hy hxn hyn
    have heq : turnsOf sent cancelled = pre.map Delivery.turn ++ x.turn ::
        (mid.map Delivery.turn ++ y.turn ::
          (post.map Delivery.turn ++ if cancelled then [.thrown] else [])) := by
      simp [turnsOf, hsent]
    rw [← heq] at this
    exact this
  · intro i d hd hi
    have hd' := (Reader.getElem?_wipe _ _ _ _).symm.trans hd
    by_cases hc : ∃ c ∈ (Reader.start.loop k o (turnsOf sent cancelled)).1.candidates.values,
        c.descriptor = i
    · rw [if_pos ⟨hi, hc⟩] at hd'
      obtain ⟨d₀, -, rfl⟩ := Option.map_eq_some_iff.mp hd'
      exact Descriptor.wiped_clear d₀
    · rw [if_neg fun h => hc h.2] at hd'
      rcases fair.wiped i d hd' with hw | ⟨wire, c, hg, hci⟩
      · exact hw
      · exact absurd ⟨c, JsMap.mem_values.mpr ⟨wire, hg⟩, hci⟩ hc

end HyperDht.Private
