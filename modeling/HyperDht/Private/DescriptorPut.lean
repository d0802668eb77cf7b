import Mathlib.Data.List.Dedup
import HyperDht.Private.Descriptor

/-!
# The write quorum of a descriptor

`Plugin.onrequest` is a storage node, `World` the nodes together with one `put`
of a publisher. Other clients' requests, expiry, lost requests and lost replies
are events of the environment. A node acknowledges a put also when it keeps a
record with a higher sequence number, so an acknowledgement alone does not say
that the wire is stored; `put_quorum_iff` says when the acknowledgements of a
successful put amount to a write quorum.
-/

namespace HyperDht.Private

/-! ## A storage node -/

def periodMs : Nat := 86400000

def periodOf (now : Nat) : Nat := now / periodMs

def relayTargets (k : Suite) : List Bytes :=
  (List.range 8).map fun index =>
    k.hash (("hyperdht/private-route-relays/v7/" ++ toString index).toList.map
      fun c => UInt8.ofNat c.toNat)

instance (k : Suite) (target : Bytes) : Decidable (target ∈ relayTargets k) :=
  List.instDecidableMemOfLawfulBEq target (relayTargets k)

/-- `blindedDescriptorTarget` of the key in a wire. -/
def targetOf (k : Suite) (wire : Bytes) : Bytes := k.hash (fieldsOf wire).blindedPublicKey

/-- The state of `DescriptorPlugin`. A record is the decoded descriptor of its wire, so the wire
is all that is kept of it. -/
structure Plugin where
  relayPublicKey : Option Bytes
  records : JsMap Bytes Bytes

/-- A request to the plugin. `token` is whether the outer request carried a valid one. -/
inductive Request where
  | capability
  | lookup (value : Option Bytes)
  | get
  | put (token : Bool) (value : Option Bytes)
  | other
deriving DecidableEq, Repr

/-- What the plugin answers. `routed` hands the record to the storage routing. -/
inductive Answer where
  | silent
  | relay (publicKey : Bytes)
  | routed (record : Option Bytes)
  | record (wire : Option Bytes)
  | acknowledged
deriving DecidableEq, Repr

def maxRecords : Nat := 256

namespace Plugin

def prune (p : Plugin) (now : Nat) : Plugin :=
  { p with
    records := p.records.entries.foldl
      (fun records e => if now < (fieldsOf e.2).expiresAt then records else records.delete e.1)
      p.records }

/-- The key `_evictOldest` picks: the first of those that expire soonest. -/
def oldest (entries : List (Bytes × Bytes)) : Option (Bytes × Nat) :=
  entries.foldl
    (fun oldest e =>
      match oldest with
      | none => some (e.1, (fieldsOf e.2).expiresAt)
      | some (_, expiry) =>
        if (fieldsOf e.2).expiresAt < expiry then some (e.1, (fieldsOf e.2).expiresAt) else oldest)
    none

def evictOldest (p : Plugin) : Plugin :=
  match oldest p.records.entries with
  | none => p
  | some (key, _) => { p with records := p.records.delete key }

/-- The `PUT` branch of `onrequest`, after `_prune`. -/
def onput (k : Suite) (p : Plugin) (now : Nat) (target : Bytes) (token : Bool)
    (value : Option Bytes) : Plugin × Answer :=
  match token, value with
  | true, some wire =>
    let options : DecodeOptions :=
      { now := now
        expectedPeriod := some (periodOf now)
        expectedDestinationPublicKey := none }
    match decodeDescriptor k options wire with
    | .error _ => (p, .silent)
    | .ok descriptor =>
      if k.hash descriptor.blindedPublicKey ≠ target then (p, .silent)
      else
        match p.records.get? target with
        | none =>
          let p := if maxRecords ≤ p.records.size then p.evictOldest else p
          ({ p with records := p.records.set target descriptor.wire }, .acknowledged)
        | some current =>
          if descriptor.seq = (fieldsOf current).seq ∧ descriptor.wire ≠ current then (p, .silent)
          else if (fieldsOf current).seq < descriptor.seq then
            ({ p with records := p.records.set target descriptor.wire }, .acknowledged)
          else (p, .acknowledged)
  | _, _ => (p, .silent)

/-- `onrequest`. The source reads its clock up to three times on the way, here they are one
reading `now`. -/
def onrequest (k : Suite) (p : Plugin) (now : Nat) (target : Bytes) (request : Request) :
    Plugin × Answer :=
  match request with
  | .capability =>
    match p.relayPublicKey with
    | none => (p, .silent)
    | some publicKey => (p, if target ∈ relayTargets k then .relay publicKey else .silent)
  | request =>
    if target.length ≠ 32 then (p, .silent)
    else
      let p := p.prune now
      match request with
      | .lookup value =>
        match value with
        | some [flag] => (p, if 1 < flag.toNat then .silent else .routed (p.records.get? target))
        | _ => (p, .silent)
      | .get => (p, .record (p.records.get? target))
      | .put token value => p.onput k now target token value
      | _ => (p, .silent)

/-- The record a node holds for a target when it starts to answer a request. -/
def current (p : Plugin) (now : Nat) (target : Bytes) : Option Bytes :=
  (p.prune now).records.get? target

/-- Whether a record has a higher sequence number than a wire. -/
def outranked (record : Option Bytes) (wire : Bytes) : Bool :=
  record.any fun current => decide ((fieldsOf wire).seq < (fieldsOf current).seq)

/-- A node that acknowledges a put holds exactly the wire unless its record outranks it. -/
theorem put_acknowledged {k : Suite} {p : Plugin} {now : Nat} {target wire : Bytes} {token : Bool}
    (h : (p.onrequest k now target (.put token (some wire))).2 = .acknowledged) :
    (p.onrequest k now target (.put token (some wire))).1.records.get? target = some wire ↔
      outranked (p.current now target) wire = false := by
  unfold onrequest at h ⊢
  dsimp only at h ⊢
  by_cases hl : target.length ≠ 32
  · simp [hl] at h
  · simp only [hl, if_false] at h ⊢
    unfold current
    generalize p.prune now = p at h ⊢
    unfold onput at h ⊢
    cases token with
    | false => cases h
    | true =>
      dsimp only at h ⊢
      split at h
      · cases h
      · next d hd =>
        obtain rfl := decodeDescriptor_eq hd
        split at h
        · cases h
        · next ht =>
          rw [if_neg ht]
          cases hg : p.records.get? target with
          | none => simp [outranked, fieldsOf]
          | some current =>
            simp only [hg] at h ⊢
            split at h
            · cases h
            · next hne =>
              rw [if_neg hne]
              by_cases hlt : (fieldsOf current).seq < (fieldsOf wire).seq
              · have hw : (fieldsOf wire).wire = wire := rfl
                rw [if_pos hlt, hw]
                simp only [outranked, Option.any_some, decide_eq_false_iff_not,
                  JsMap.get?_set_self, true_iff]
                omega
              · rw [if_neg hlt, hg]
                simp only [outranked, Option.any_some, decide_eq_false_iff_not, Option.some.injEq]
                constructor
                · rintro rfl
                  omega
                · intro hle
                  by_contra hcw
                  exact hne ⟨by omega, fun he => hcw he.symm⟩

end Plugin

/-! ## A put and the nodes around it -/

/-- Where `put` stands. A write is `none` while its request is pending, then whether it was
fulfilled. -/
inductive PutPhase where
  | querying
  | writing (candidates : List Endpoint) (writes : List (Option Bool))
  | reading (candidates : List Endpoint) (stored : Nat) (turns : List Turn)
  | returned (stored : Nat)
  | thrown
deriving DecidableEq, Repr

/-- An acknowledgement of this put: the node, and its record for the target before and after. -/
structure Ack where
  node : Endpoint
  before : Option Bytes
  after : Option Bytes
deriving DecidableEq, Repr

/-- The storage nodes, the put of `wire`, and what the nodes have answered to it: the
acknowledgements in the order they were given, and the replies to the readback. -/
structure World where
  nodes : Endpoint → Plugin
  phase : PutPhase
  acks : List Ack
  served : List (Endpoint × Option Bytes)

/-- A closest reply of the first query, as far as `put` reads it. -/
structure ClosestReply where
  sender : Option Endpoint
  token : Option Bytes
deriving DecidableEq, Repr

/-- What can happen. `request` is another client's request at any node; `write` and `read` are a
candidate's node handling this put's request, `acknowledged`, `failed` and `answered` what becomes
of it at the publisher. -/
inductive PutEvent where
  | request (node : Endpoint) (now : Nat) (target : Bytes) (request : Request)
  | closest (replies : List ClosestReply)
  | write (i : Nat) (now : Nat) (token : Bool)
  | acknowledged (i : Nat)
  | failed (i : Nat)
  | written
  | read (i : Nat) (now : Nat)
  | answered (j : Nat) (now : Nat)
  | done
  | cancel
deriving DecidableEq, Repr

def maxReplies : Nat := 8

def minWriteQuorum : Nat := 3

/-- The selection of the write candidates: distinct senders with a 32-byte token, at most
`maxReplies` of them. -/
def selectCandidates (candidates : List Endpoint) : List ClosestReply → List Endpoint
  | [] => candidates
  | reply :: replies =>
    match reply.sender with
    | none => selectCandidates candidates replies
    | some sender =>
      if reply.token.map List.length ≠ some 32 then selectCandidates candidates replies
      else if sender ∈ candidates then selectCandidates candidates replies
      else if maxReplies ≤ (candidates ++ [sender]).length then candidates ++ [sender]
      else selectCandidates (candidates ++ [sender]) replies

namespace World

def handle (k : Suite) (w : World) (node : Endpoint) (now : Nat) (target : Bytes)
    (request : Request) : World × Answer :=
  let (p, answer) := (w.nodes node).onrequest k now target request
  ({ w with nodes := Function.update w.nodes node p }, answer)

def storedCount (writes : List (Option Bool)) : Nat := writes.countP (· = some true)

/-- The options of the readback. -/
def readbackOptions (wire : Bytes) : ReadOptions where
  expectedPeriod := some (fieldsOf wire).period
  expectedDestinationPublicKey := none
  expectedWire := some wire

/-- The end of the readback: an unreturned, missing or different descriptor fails the put. -/
def afterRead (k : Suite) (wire : Bytes) (stored : Nat) (turns : List Turn) : PutPhase :=
  match (readTarget k (readbackOptions wire) turns).2 with
  | .returned (some i) =>
    if (readTarget k (readbackOptions wire) turns).1.heap[i]?.map Descriptor.wire = some wire
    then .returned stored
    else .thrown
  | _ => .thrown

def step (k : Suite) (wire : Bytes) (w : World) : PutEvent → World
  | .request node now target request => (w.handle k node now target request).1
  | .closest replies =>
    match w.phase with
    | .querying =>
      let candidates := selectCandidates [] replies
      { w with
        phase := if candidates.length < minWriteQuorum then .thrown
          else .writing candidates (candidates.map fun _ => none) }
    | _ => w
  | .write i now token =>
    match w.phase with
    | .writing candidates _ =>
      match candidates[i]? with
      | none => w
      | some node =>
        let (w', answer) := w.handle k node now (targetOf k wire) (.put token (some wire))
        if answer = .acknowledged then
          { w' with
            acks := w'.acks ++
              [{ node := node
                 before := (w.nodes node).current now (targetOf k wire)
                 after := (w'.nodes node).records.get? (targetOf k wire) }] }
        else w'
    | _ => w
  | .acknowledged i =>
    match w.phase with
    | .writing candidates writes =>
      match candidates[i]? with
      | none => w
      | some node =>
        if writes[i]? = some none ∧ w.acks.any (·.node == node) then
          { w with phase := .writing candidates (writes.set i (some true)) }
        else w
    | _ => w
  | .failed i =>
    match w.phase with
    | .writing candidates writes =>
      if writes[i]? = some none then
        { w with phase := .writing candidates (writes.set i (some false)) }
      else w
    | _ => w
  | .written =>
    match w.phase with
    | .writing candidates writes =>
      if writes.all Option.isSome then
        { w with
          phase := if storedCount writes < minWriteQuorum then .thrown
            else .reading candidates (storedCount writes) [] }
      else w
    | _ => w
  | .read i now =>
    match w.phase with
    | .reading candidates _ _ =>
      match candidates[i]? with
      | none => w
      | some node =>
        let (w', answer) := w.handle k node now (targetOf k wire) .get
        match answer with
        | .record value => { w' with served := w'.served ++ [(node, value)] }
        | _ => w'
    | _ => w
  | .answered j now =>
    match w.phase, w.served[j]? with
    | .reading candidates stored turns, some (node, value) =>
      { w with phase := .reading candidates stored (turns ++ [.reply now value (some node)]) }
    | _, _ => w
  | .done =>
    match w.phase with
    | .reading _ stored turns => { w with phase := afterRead k wire stored turns }
    | _ => w
  | .cancel =>
    match w.phase with
    | .returned _ => w
    | _ => { w with phase := .thrown }

def run (k : Suite) (wire : Bytes) (w : World) (es : List PutEvent) : World :=
  es.foldl (step k wire) w

/-- `put(wire)` at time `now`, among nodes in any state. -/
def start (k : Suite) (nodes : Endpoint → Plugin) (wire : Bytes) (now : Nat) : World :=
  let options : DecodeOptions :=
    { now := now
      expectedPeriod := some (periodOf now)
      expectedDestinationPublicKey := none }
  { nodes := nodes
    phase := if (decodeDescriptor k options wire).isOk then .querying else .thrown
    acks := []
    served := [] }

/-- The distinct nodes that held exactly `wire` as they acknowledged the put. -/
def holders (w : World) (wire : Bytes) : List Endpoint :=
  ((w.acks.filter fun a => a.after = some wire).map Ack.node).dedup

/-- The distinct nodes that acknowledged the put with no record of a higher sequence number. -/
def unopposed (w : World) (wire : Bytes) : List Endpoint :=
  ((w.acks.filter fun a => !Plugin.outranked a.before wire).map Ack.node).dedup

/-! ## The accounting of a put -/

variable {k : Suite} {wire : Bytes}

/-- Two different endpoints answered the readback with exactly `wire`. -/
def ReadBack (w : World) (wire : Bytes) : Prop :=
  ∃ x y : Endpoint, x ≠ y ∧ (x, some wire) ∈ w.served ∧ (y, some wire) ∈ w.served

/-- What every state of a put satisfies: an acknowledging node holds the wire unless its record
outranked it, the readback only sees what nodes served, and a put that returned was read back. -/
structure Honest (w : World) (wire : Bytes) : Prop where
  acks : ∀ a ∈ w.acks, a.after = some wire ↔ Plugin.outranked a.before wire = false
  turns : ∀ (candidates : List Endpoint) (stored : Nat) (turns : List Turn),
    w.phase = .reading candidates stored turns → ∃ sent : List Delivery,
      turns = sent.map Delivery.turn ∧ ∀ x ∈ sent, (x.endpoint, x.value) ∈ w.served
  readBack : ∀ n : Nat, w.phase = .returned n → w.ReadBack wire

theorem honest_start (k : Suite) (nodes : Endpoint → Plugin) (wire : Bytes) (now : Nat) :
    (start k nodes wire now).Honest wire := by
  refine ⟨by simp [start], ?_, ?_⟩
  · intro candidates stored turns h
    simp only [start] at h
    split at h <;> cases h
  · intro n h
    simp only [start] at h
    split at h <;> cases h

/-- The nodes' own state does not matter to the accounting. -/
theorem Honest.handle {w : World} (h : w.Honest wire) (node : Endpoint) (now : Nat)
    (target : Bytes) (request : Request) : (w.handle k node now target request).1.Honest wire :=
  ⟨h.acks, h.turns, h.readBack⟩

/-- A phase that is neither reading nor returned keeps the accounting. -/
theorem Honest.phase {w : World} (h : w.Honest wire) {phase : PutPhase}
    (hr : ∀ candidates stored turns, phase = .reading candidates stored turns → turns = [])
    (hn : ∀ n, phase ≠ .returned n) : Honest { w with phase := phase } wire where
  acks := h.acks
  turns := by
    intro candidates stored turns he
    exact ⟨[], by rw [hr _ _ _ he]; rfl, by simp⟩
  readBack := fun n he => absurd he (hn n)

/-- A readback that ends with a descriptor ends with the put's own wire, from two endpoints. -/
theorem readBack_of_returned {w : World} {sent : List Delivery} {stored n : Nat}
    (hs : ∀ x ∈ sent, (x.endpoint, x.value) ∈ w.served)
    (h : afterRead k wire stored (sent.map Delivery.turn) = .returned n) : w.ReadBack wire := by
  unfold afterRead at h
  split at h
  · next i hi =>
    obtain ⟨fair, hbest⟩ :=
      (Reader.fair_start k (readbackOptions wire)).loop (sent.map Delivery.turn)
    obtain ⟨wire', c, hg, -, hq⟩ := hbest i hi
    have hcount := fair.count wire'
    rw [hg, Option.map_some, Option.getD_some] at hcount
    have hfair : Reader.Fair k (readbackOptions wire) (turnsOf sent false)
        (Reader.start.loop k (readbackOptions wire) (sent.map Delivery.turn)).1 := by
      simpa [turnsOf] using fair
    obtain ⟨x, hx, y, hy, hne, hvx, hvy⟩ := two_voters hfair (hcount ▸ hq)
    obtain rfl : wire = wire' := by
      have := hvx.2
      simp only [accepts, readbackOptions, Bool.and_eq_true] at this
      simpa using this.2
    exact ⟨x.endpoint, y.endpoint, hne, hvx.1 ▸ hs x hx, hvy.1 ▸ hs y hy⟩
  · cases h

theorem Honest.step {w : World} (h : w.Honest wire) (e : PutEvent) :
    (w.step k wire e).Honest wire := by
  cases e with
  | request node now target request => exact h.handle node now target request
  | closest replies =>
    unfold World.step
    dsimp only
    split
    · refine h.phase ?_ ?_
      · intro candidates stored turns he
        split at he <;> cases he
      · intro n he
        split at he <;> cases he
    · exact h
  | write i now token =>
    unfold World.step
    dsimp only
    split
    · next candidates writes hp =>
      split
      · exact h
      · next node hn =>
        have hh := h.handle (k := k) node now (targetOf k wire) (.put token (some wire))
        split
        · next hack =>
          refine ⟨?_, ?_, ?_⟩
          · intro a ha
            rcases List.mem_append.mp ha with ha | ha
            · exact h.acks a ha
            · rw [List.mem_singleton.mp ha]
              have := Plugin.put_acknowledged (k := k) (p := w.nodes node) hack
              simpa [World.handle] using this
          · exact hh.turns
          · exact hh.readBack
        · exact hh
    · exact h
  | acknowledged i =>
    unfold World.step
    dsimp only
    split
    · split
      · exact h
      · split
        · exact h.phase (fun _ _ _ he => by cases he) (fun _ he => by cases he)
        · exact h
    · exact h
  | failed i =>
    unfold World.step
    dsimp only
    split
    · split
      · exact h.phase (fun _ _ _ he => by cases he) (fun _ he => by cases he)
      · exact h
    · exact h
  | written =>
    unfold World.step
    dsimp only
    split
    · split
      · refine h.phase ?_ ?_
        · intro candidates stored turns he
          split at he
          · cases he
          · injection he with _ _ he
            exact he.symm
        · intro n he
          split at he <;> cases he
      · exact h
    · exact h
  | read i now =>
    unfold World.step
    dsimp only
    split
    · split
      · exact h
      · next node hn =>
        have hh := h.handle (k := k) node now (targetOf k wire) .get
        split
        · next value hv =>
          refine ⟨hh.acks, ?_, ?_⟩
          · intro candidates stored turns he
            obtain ⟨sent, hs, hm⟩ := hh.turns candidates stored turns he
            exact ⟨sent, hs, fun x hx => List.mem_append_left _ (hm x hx)⟩
          · intro n he
            obtain ⟨x, y, hne, hx, hy⟩ := hh.readBack n he
            exact ⟨x, y, hne, List.mem_append_left _ hx, List.mem_append_left _ hy⟩
        · exact hh
    · exact h
  | answered j now =>
    unfold World.step
    dsimp only
    split
    · next candidates stored turns node value hp hj =>
      refine ⟨h.acks, ?_, fun n he => by cases he⟩
      intro candidates' stored' turns' he
      injection he with _ _ he
      obtain ⟨sent, hs, hm⟩ := h.turns _ _ _ hp
      refine ⟨sent ++ [{ now := now, value := value, endpoint := node }], ?_, ?_⟩
      · rw [← he, hs, List.map_append]
        rfl
      · intro x hx
        rcases List.mem_append.mp hx with hx | hx
        · exact hm x hx
        · rw [List.mem_singleton.mp hx]
          exact List.mem_of_getElem? hj
    · exact h
  | done =>
    unfold World.step
    dsimp only
    split
    · next candidates stored turns hp =>
      obtain ⟨sent, rfl, hm⟩ := h.turns _ _ _ hp
      refine ⟨h.acks, ?_, ?_⟩
      · intro candidates' stored' turns' he
        dsimp only at he
        unfold afterRead at he
        split at he
        · split at he <;> cases he
        · cases he
      · intro n he
        exact readBack_of_returned (w := w) hm he
    · exact h
  | cancel =>
    unfold World.step
    dsimp only
    split
    · exact h
    · exact h.phase (fun _ _ _ he => by cases he) (fun _ he => by cases he)

theorem Honest.run {w : World} (h : w.Honest wire) (es : List PutEvent) :
    (w.run k wire es).Honest wire := by
  induction es generalizing w with
  | nil => exact h
  | cons e es ih => exact ih (h.step e)

/-- The nodes that held the wire are those no higher record stood against. -/
theorem Honest.holders_eq {w : World} (h : w.Honest wire) : w.holders wire = w.unopposed wire := by
  unfold holders unopposed
  rw [List.filter_congr]
  intro a ha
  have := h.acks a ha
  cases ho : Plugin.outranked a.before wire with
  | true =>
    rw [ho] at this
    simpa using this
  | false => simpa using this.mpr ho

/-- A put that returned is a write quorum, three distinct nodes holding exactly the wire as they
acknowledged it and two endpoints returning it afterwards, if and only if three of the
acknowledging nodes had no record with a higher sequence number. -/
theorem put_quorum_iff (k : Suite) (nodes : Endpoint → Plugin) (wire : Bytes) (now : Nat)
    (es : List PutEvent) (n : Nat)
    (h : ((start k nodes wire now).run k wire es).phase = .returned n) :
    let w := (start k nodes wire now).run k wire es
    (minWriteQuorum ≤ (w.holders wire).length ∧ w.ReadBack wire) ↔
      minWriteQuorum ≤ (w.unopposed wire).length := by
  intro w
  have honest : w.Honest wire := (honest_start k nodes wire now).run es
  rw [honest.holders_eq]
  exact ⟨fun hq => hq.1, fun hq => ⟨hq, honest.readBack n h⟩⟩

/-! ## An acknowledgement without a copy -/

/-- A suite in which the wires below verify and a target is the blinded key itself. -/
def openSuite : Suite where
  verify := fun _ _ _ => true
  deriveBlindedPublicKey := fun _ _ => none
  hash := id

/-- A well-formed wire of period 0 that expires after a second. -/
def sampleWire (seq : UInt8) : Bytes :=
  [3] ++ List.replicate 8 0 ++ List.replicate 64 0 ++ List.replicate 32 1 ++ List.replicate 32 0 ++
    (List.replicate 7 0 ++ [seq]) ++ (List.replicate 6 0 ++ [3, 232]) ++ List.replicate 64 0

def sampleNode (n : Nat) : Endpoint := ⟨"10.0.0.1", n⟩

/-- A put to three nodes that all acknowledge it, read back from the first two. -/
def sampleRun : List PutEvent :=
  [.closest ([1, 2, 3].map fun n => ⟨some (sampleNode n), some (List.replicate 32 0)⟩),
   .write 0 0 true, .write 1 0 true, .write 2 0 true,
   .acknowledged 0, .acknowledged 1, .acknowledged 2, .written,
   .read 0 0, .read 1 0, .answered 0 0, .answered 1 0, .done]

def emptyPlugin : Plugin := ⟨none, .empty⟩

/-- Three empty nodes make a quorum. -/
theorem put_quorum_of_empty_nodes :
    let w := (start openSuite (fun _ => emptyPlugin) (sampleWire 1) 0).run openSuite (sampleWire 1)
      sampleRun
    w.phase = .returned 3 ∧
      minWriteQuorum ≤ (w.holders (sampleWire 1)).length ∧ w.ReadBack (sampleWire 1) := by
  have h : ((start openSuite (fun _ => emptyPlugin) (sampleWire 1) 0).run openSuite
      (sampleWire 1) sampleRun).phase = .returned 3 := by decide +kernel
  exact ⟨h, (put_quorum_iff openSuite _ (sampleWire 1) 0 sampleRun 3 h).mpr (by decide +kernel)⟩

/-- The third node holds a record with a higher sequence number. -/
def rankedNodes (e : Endpoint) : Plugin :=
  if e = sampleNode 3 then ⟨none, JsMap.empty.set (List.replicate 32 0) (sampleWire 2)⟩
  else emptyPlugin

/-- A put can return with two copies only: the node with the newer record acknowledges it too. -/
theorem put_returns_with_two_copies :
    let w := (start openSuite rankedNodes (sampleWire 1) 0).run openSuite (sampleWire 1) sampleRun
    w.phase = .returned 3 ∧
      ¬ (minWriteQuorum ≤ (w.holders (sampleWire 1)).length ∧ w.ReadBack (sampleWire 1)) := by
  refine ⟨by decide +kernel, fun h => absurd h.1 (by decide +kernel)⟩

end World

end HyperDht.Private
