import HyperDht.Lib.JsMap
import HyperDht.Lib.Runs
import Mathlib.Data.List.DropRight
import Mathlib.Logic.Function.Basic

/-!
# Holepunch ids

The table `_holepunches` of `lib/server.js`. `_addHandshake` takes the first free slot, runs
through up to five awaits and advertises the slot in its reply; `_clear` frees the slot again,
and `_clearAll` empties the whole table on suspend and close. The awaits are followed by a check
that the server is not suspended or closing, but not by one that the slot is still theirs.
-/

namespace HyperDht.HolepunchIds

/-- The await an `_addHandshake` is at, or how it ended. `remoteAddress` is whether the server
knew its address, in which case the reply advertises no id. -/
inductive Phase where
  | recv
  | firewall
  | localAddresses (error remoteAddress : Bool)
  | send (error remoteAddress : Bool)
  | matchAddress (remoteAddress : Bool)
  | returned (remoteAddress : Bool)
  | null
  | rejected
deriving DecidableEq

def Phase.awaiting : Phase → Bool
  | .recv | .firewall | .localAddresses _ _ | .send _ _ | .matchAddress _ => true
  | .returned _ | .null | .rejected => false

/-- What a reply that is made says of the server's address. -/
def Phase.reply : Phase → Option Bool
  | .matchAddress remoteAddress | .returned remoteAddress => some remoteAddress
  | _ => none

/-- `hs`, with its key in `_connects` and its id. `clearing` stays set when the timer is gone. -/
structure Handshake where
  k : List UInt8
  id : Nat
  phase : Phase
  rawStream : Bool
  clearing : Bool
  timer : Bool
deriving DecidableEq

/-- The handshakes are numbered as they come. `waiting` are the calls of `_onpeerhandshake`, by
the handshake they wait for; `active` those whose reply was returned with an id, until they or
the table are cleared. -/
structure Server where
  shareLocalAddress : Bool
  handshakes : Nat → Handshake
  next : Nat
  holepunches : List (Option Nat)
  connects : JsMap (List UInt8) Nat
  waiting : List Nat
  suspended : Bool
  closing : Bool
  active : List Nat

def Server.start (shareLocalAddress : Bool) : Server where
  shareLocalAddress := shareLocalAddress
  handshakes _ := ⟨[], 0, .rejected, false, false, false⟩
  next := 0
  holepunches := []
  connects := .empty
  waiting := []
  suspended := false
  closing := false
  active := []

/-- `this._closing || this.suspended`. -/
def Server.stopped (s : Server) : Bool := s.closing || s.suspended

/-- `id < holepunches.length ? holepunches[id] : null`. -/
def slotOf (holepunches : List (Option Nat)) (id : Nat) : Option Nat := (holepunches[id]?).join

def Server.slot (s : Server) (id : Nat) : Option Nat := slotOf s.holepunches id

/-! ## `_addHandshake` -/

def Handshake.clearLater (hs : Handshake) : Handshake :=
  if hs.clearing then hs else { hs with clearing := true, timer := true }

def Handshake.giveUp (hs : Handshake) : Handshake := { hs.clearLater with phase := .null }

/-- Whether the client is reached directly, by a shared local address, or neither. -/
inductive Way where
  | direct
  | sameHost
  | punch
deriving DecidableEq

inductive Outcome where
  | recv (ok : Bool)
  | firewall (firewalled error remoteAddress : Bool)
  | localAddresses (ok : Bool)
  | send (ok : Bool) (way : Way)
  | matchAddress (found : Option Bool)
deriving DecidableEq

/-- From the local addresses to `handshake.send`. -/
def Handshake.makeReply (hs : Handshake) (error remoteAddress : Bool) : Handshake :=
  { hs with rawStream := !error, phase := .send error remoteAddress }

def Handshake.lastCheck (hs : Handshake) (stopped remoteAddress : Bool) : Handshake :=
  if stopped then hs.giveUp else { hs with phase := .returned remoteAddress }

/-- `_addHandshake` from an await to the next. -/
def Handshake.resume (stopped shareLocalAddress : Bool) (hs : Handshake) (o : Outcome) :
    Handshake :=
  match hs.phase, o with
  | .recv, .recv ok =>
    if !ok then hs.giveUp
    else if stopped then hs.giveUp
    else { hs with phase := .firewall }
  | .firewall, .firewall firewalled error remoteAddress =>
    if stopped || firewalled then hs.giveUp
    else if shareLocalAddress then { hs with phase := .localAddresses error remoteAddress }
    else hs.makeReply error remoteAddress
  | .localAddresses error remoteAddress, .localAddresses ok =>
    if !ok then { hs with phase := .rejected }
    else if stopped then hs.giveUp
    else hs.makeReply error remoteAddress
  | .send error remoteAddress, .send ok way =>
    if !ok then hs.giveUp
    else if stopped then hs.giveUp
    else if error then { hs.clearLater with phase := .returned remoteAddress }
    else
      match way with
      -- `onsocket`
      | .direct => { hs.clearLater with rawStream := false, phase := .returned remoteAddress }
      | .sameHost =>
        if shareLocalAddress then { hs with phase := .matchAddress remoteAddress }
        else hs.lastCheck stopped remoteAddress
      | .punch => hs.lastCheck stopped remoteAddress
  | .matchAddress remoteAddress, .matchAddress found =>
    match found with
    | none => { hs with phase := .rejected }
    -- returned without a check
    | some true => { hs with phase := .returned remoteAddress }
    | some false => hs.lastCheck stopped remoteAddress
  | _, _ => hs

/-! ## The server -/

/-- The slot `_addHandshake` takes, and the table with the handshake in it. -/
def takeSlot (holepunches : List (Option Nat)) (h : Nat) : Nat × List (Option Nat) :=
  let id := holepunches.findIdx (· = none)
  if id < holepunches.length then (id, holepunches.set id (some h))
  else (holepunches.length, holepunches ++ [some h])

/-- The first statements of `_addHandshake`; `created` unless `createHandshake` throws. -/
def Server.addHandshake (s : Server) (k : List UInt8) (created : Bool) : Server :=
  let (id, holepunches) := takeSlot s.holepunches s.next
  { s with
    handshakes := Function.update s.handshakes s.next
      ⟨k, id, if created then .recv else .rejected, false, false, false⟩
    next := s.next + 1
    holepunches }

/-- `_onpeerhandshake` up to its await. -/
def Server.onpeerhandshake (s : Server) (k : List UInt8) (created : Bool) : Server :=
  match s.connects.get? k with
  | some h => { s with waiting := h :: s.waiting }
  | none =>
    { s.addHandshake k created with
      connects := s.connects.set k s.next
      waiting := s.next :: s.waiting }

def Server.continue (s : Server) (h : Nat) (o : Outcome) : Server :=
  { s with
    handshakes := Function.update s.handshakes h
      ((s.handshakes h).resume s.stopped s.shareLocalAddress o) }

/-- The raw stream's `close` listener. -/
def Server.onrawstreamclose (s : Server) (h : Nat) : Server :=
  if s.closing || !(s.handshakes h).rawStream then s
  else { s with handshakes := Function.update s.handshakes h (s.handshakes h).clearLater }

/-- `hs.onsocket` where traffic comes in on the raw stream, whose id the client has from the
reply. -/
def Server.onsocket (s : Server) (h : Nat) : Server :=
  let hs := s.handshakes h
  if hs.rawStream && hs.phase.reply.isSome then
    { s with
      handshakes := Function.update s.handshakes h { hs.clearLater with rawStream := false } }
  else s

/-- `_onpeerhandshake` after its await. A reply with an id makes the handshake active. -/
def Server.answer (s : Server) (h : Nat) : Server :=
  if h ∈ s.waiting ∧ (s.handshakes h).phase.awaiting = false then
    let waiting := s.waiting.erase h
    if !s.stopped && (s.handshakes h).phase = .returned false then
      { s with waiting, active := h :: s.active }
    else { s with waiting }
  else s

/-- `_clear` without its timer. The slots at the end that are free are popped. -/
def Server.clear (s : Server) (h : Nat) : Server :=
  let hs := s.handshakes h
  if s.slot hs.id ≠ some h then s
  else
    { s with
      holepunches := (s.holepunches.set hs.id none).rdropWhile (· = none)
      connects := s.connects.delete hs.k
      active := s.active.filter (· ≠ h) }

/-- The timer of `_clearLater`. A timer runs when every call whose handshake has ended has gone
on. -/
def Server.ontimer (s : Server) (h : Nat) : Server :=
  if (s.handshakes h).timer && s.waiting.all fun w => (s.handshakes w).phase.awaiting then
    let s := s.clear h
    { s with
      handshakes := Function.update s.handshakes h { s.handshakes h with timer := false } }
  else s

def Server.clearAll (s : Server) : Server :=
  { s with
    handshakes := fun h =>
      if some h ∈ s.holepunches then { s.handshakes h with timer := false } else s.handshakes h
    holepunches := []
    connects := .empty
    active := [] }

inductive Event where
  | handshake (k : List UInt8) (created : Bool)
  | continue (h : Nat) (o : Outcome)
  | rawStreamClose (h : Nat)
  | socket (h : Nat)
  | answer (h : Nat)
  | timer (h : Nat)
  | suspend
  | resume
  /-- `close()` is called. -/
  | close
  /-- `_close` has awaited `_listening`. -/
  | closeTable
deriving DecidableEq

def step (s : Server) : Event → Server
  | .handshake k created => s.onpeerhandshake k created
  | .continue h o => s.continue h o
  | .rawStreamClose h => s.onrawstreamclose h
  | .socket h => s.onsocket h
  | .answer h => s.answer h
  | .timer h => s.ontimer h
  | .suspend => { s.clearAll with suspended := true }
  | .resume => { s with suspended := false }
  | .close => { s with closing := true }
  | .closeTable => if s.closing then s.clearAll else s

/-- The handshake that `_onpeerholepunch` goes on with. -/
def Server.onpeerholepunch (s : Server) (id : Nat) : Option Nat :=
  if s.stopped then none else s.slot id

/-! ## What an id denotes -/

/-- The handshake has not ended, or a call is still to return its reply. -/
def UnderWay (s : Server) (h : Nat) : Prop :=
  (s.handshakes h).phase.awaiting = true ∨ (s.handshakes h).phase.reply.isSome ∧ h ∈ s.waiting

/-- The reply is made and not yet returned. -/
def Unsent (s : Server) (h : Nat) : Prop :=
  (s.handshakes h).phase.reply.isSome ∧ UnderWay s h

/-- The slot of the handshake's id is its own. -/
def Holds (s : Server) (h : Nat) : Prop := s.slot (s.handshakes h).id = some h

/-- Every id that is advertised denotes its handshake, and no two of those with a reply that is
made or returned have one id. -/
structure Good (s : Server) : Prop where
  holds : ∀ h ∈ s.active, Holds s h
  apart : ∀ h h', (Unsent s h ∨ h ∈ s.active) → (Unsent s h' ∨ h' ∈ s.active) →
    (s.handshakes h).id = (s.handshakes h').id → h = h'

/-- The server is not resumed while a handshake is under way whose slot is gone, unless it is
closing, and no timer clears a handshake that is under way. -/
def Meets (s : Server) : Event → Prop
  | .resume => s.closing = true ∨ ∀ h, UnderWay s h → Holds s h
  | .timer h => ¬ UnderWay s h
  | _ => True

/-! ## The table -/

theorem slotOf_append (l : List (Option Nat)) (a : Option Nat) (i : Nat) :
    slotOf (l ++ [a]) i = if i = l.length then a else slotOf l i := by
  unfold slotOf
  rcases Nat.lt_trichotomy i l.length with h | rfl | h
  · rw [List.getElem?_append_left h, if_neg h.ne]
  · simp
  · rw [if_neg h.ne', List.getElem?_eq_none (by simp; omega), List.getElem?_eq_none h.le]

theorem slotOf_set {l : List (Option Nat)} {id : Nat} (hid : id < l.length) (a : Option Nat)
    (i : Nat) : slotOf (l.set id a) i = if i = id then a else slotOf l i := by
  unfold slotOf
  rw [List.getElem?_set]
  by_cases h : id = i
  · subst h
    simp [hid]
  · rw [if_neg h, if_neg (Ne.symm h)]

/-- Popping what is free at the end changes no slot. -/
theorem slotOf_rdropWhile (l : List (Option Nat)) (i : Nat) :
    slotOf (l.rdropWhile (· = none)) i = slotOf l i := by
  induction l using List.reverseRecOn with
  | nil => simp
  | append_singleton l a ih =>
    cases a with
    | some h => rw [List.rdropWhile_concat_neg _ _ _ (by simp)]
    | none =>
      rw [List.rdropWhile_concat_pos _ _ _ (by simp), ih, slotOf_append]
      split
      · next h => simp [slotOf, h]
      · rfl

theorem slotOf_takeSlot (l : List (Option Nat)) (h : Nat) :
    slotOf l (takeSlot l h).1 = none ∧
      ∀ i, slotOf (takeSlot l h).2 i = if i = (takeSlot l h).1 then some h else slotOf l i := by
  unfold takeSlot
  dsimp only
  split
  · next hlt =>
    refine ⟨?_, slotOf_set hlt _⟩
    have hnone := List.findIdx_getElem (w := hlt)
    simp only [decide_eq_true_eq] at hnone
    unfold slotOf
    rw [List.getElem?_eq_getElem hlt, hnone]
    rfl
  · exact ⟨by simp [slotOf], slotOf_append l _⟩

theorem slotOf_clear {l : List (Option Nat)} {id h : Nat} (hid : slotOf l id = some h) (i : Nat) :
    slotOf ((l.set id none).rdropWhile (· = none)) i = if i = id then none else slotOf l i := by
  rw [slotOf_rdropWhile]
  refine slotOf_set ?_ none i
  by_contra hge
  simp [slotOf, List.getElem?_eq_none (Nat.le_of_not_lt hge)] at hid

/-! ## From an await to the next -/

variable {stopped share : Bool} {hs : Handshake} {o : Outcome}

@[simp] theorem clearLater_id (hs : Handshake) : hs.clearLater.id = hs.id := by
  unfold Handshake.clearLater
  split <;> rfl

@[simp] theorem clearLater_k (hs : Handshake) : hs.clearLater.k = hs.k := by
  unfold Handshake.clearLater
  split <;> rfl

@[simp] theorem clearLater_phase (hs : Handshake) : hs.clearLater.phase = hs.phase := by
  unfold Handshake.clearLater
  split <;> rfl

/-- What an await changes: nothing, or it goes on to another phase, with no reply made while the
server is stopped. -/
structure GoesOn (stopped : Bool) (hs hs' : Handshake) : Prop where
  k : hs'.k = hs.k
  id : hs'.id = hs.id
  awaiting : hs.phase.awaiting = false → hs'.phase = hs.phase
  reply : stopped = true → hs'.phase.reply = none ∨ hs'.phase.reply = hs.phase.reply

theorem GoesOn.refl (hs : Handshake) : GoesOn stopped hs hs := ⟨rfl, rfl, fun _ => rfl, fun _ => .inr rfl⟩

theorem GoesOn.giveUp (ha : hs.phase.awaiting = true) : GoesOn stopped hs hs.giveUp :=
  ⟨clearLater_k hs, clearLater_id hs, fun h => by simp [h] at ha, fun _ => .inl rfl⟩

theorem GoesOn.quiet (ha : hs.phase.awaiting = true) {hs' : Handshake} (hk : hs'.k = hs.k)
    (hid : hs'.id = hs.id) (hreply : hs'.phase.reply = none) : GoesOn stopped hs hs' :=
  ⟨hk, hid, fun h => by simp [h] at ha, fun _ => .inl hreply⟩

theorem GoesOn.of_running (ha : hs.phase.awaiting = true) {hs' : Handshake} (hk : hs'.k = hs.k)
    (hid : hs'.id = hs.id) (hrun : ¬ stopped = true) : GoesOn stopped hs hs' :=
  ⟨hk, hid, fun h => by simp [h] at ha, fun h => (hrun h).elim⟩

theorem GoesOn.lastCheck (ha : hs.phase.awaiting = true) (remoteAddress : Bool) :
    GoesOn stopped hs (hs.lastCheck stopped remoteAddress) := by
  unfold Handshake.lastCheck
  split
  · exact .giveUp ha
  · next hrun => exact .of_running ha rfl rfl hrun

theorem goesOn_resume (stopped share : Bool) (hs : Handshake) (o : Outcome) :
    GoesOn stopped hs (hs.resume stopped share o) := by
  unfold Handshake.resume
  split
  · next ok hp =>
    have ha : hs.phase.awaiting = true := by rw [hp]; rfl
    split
    · exact .giveUp ha
    · split
      · exact .giveUp ha
      · exact .quiet ha rfl rfl rfl
  · next firewalled error remoteAddress hp =>
    have ha : hs.phase.awaiting = true := by rw [hp]; rfl
    split
    · exact .giveUp ha
    · split
      · exact .quiet ha rfl rfl rfl
      · exact .quiet ha rfl rfl rfl
  · next error remoteAddress ok hp =>
    have ha : hs.phase.awaiting = true := by rw [hp]; rfl
    split
    · exact .quiet ha rfl rfl rfl
    · split
      · exact .giveUp ha
      · exact .quiet ha rfl rfl rfl
  · next error remoteAddress ok way hp =>
    have ha : hs.phase.awaiting = true := by rw [hp]; rfl
    split
    · exact .giveUp ha
    · split
      · exact .giveUp ha
      · next hrun =>
        split
        · exact .of_running ha (clearLater_k hs) (clearLater_id hs) hrun
        · split
          · exact .of_running ha (clearLater_k hs) (clearLater_id hs) hrun
          · split
            · exact .of_running ha rfl rfl hrun
            · exact .lastCheck ha _
          · exact .lastCheck ha _
  · next remoteAddress found hp =>
    have ha : hs.phase.awaiting = true := by rw [hp]; rfl
    split
    · exact .quiet ha rfl rfl rfl
    · -- the reply was made before the await
      exact ⟨rfl, rfl, fun h => by simp [h] at ha, fun _ => .inr (by rw [hp]; rfl)⟩
    · exact .lastCheck ha _
  · exact .refl hs

end HyperDht.HolepunchIds
