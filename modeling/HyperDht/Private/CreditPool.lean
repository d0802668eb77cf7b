import HyperDht.Lib.JsMap
import HyperDht.Private.Logical

/-!
# The circuit credit pool

`CircuitCreditPool` shares one circuit window between the legs of a route. A
leg asks for credit with `demand`, holds what it was granted until it uses it
(`sent`) or hands it back (`release`), and used credit comes back with
`returned`. The calls here are the state changes each method makes before it
ends; `Host.distribute` is `_distribute`, the loop that hands out the
available credit and calls `onGrant` after every grant. A callback runs while
`distributing` is set, so a pool method it calls makes its own change and the
`_distribute` at its end returns at once (`distribute_of_distributing`).
-/

namespace HyperDht.Private

/-- The place at which a pool method throws. -/
inductive PoolFault where
  | unavailable
  | invalid
  | noDemand
  | pendingDemand
  | grantOverflow
  | rateLimit
  deriving DecidableEq, Repr

/-- The pool's entry for one owner. `serial` is the identity of the object:
the pool compares legs by reference. -/
structure Leg where
  serial : Nat
  granted : Nat
  wanted : Nat
  demandOpen : Bool
  lastDemandAt : Int
  progress : Nat
  lastActivity : Int
  idleTimer : Bool
  deriving DecidableEq, Repr

/-- A reference to a leg, as `pending` holds it. -/
structure LegRef (ω : Type) where
  owner : ω
  serial : Nat
  deriving DecidableEq, Repr

structure Pool (ω : Type) where
  available : Nat
  inFlight : Nat
  legs : JsMap ω Leg
  pending : List (LegRef ω)
  distributing : Bool
  closed : Bool
  nextSerial : Nat

namespace Pool

variable {ω : Type} [DecidableEq ω]

def new : Pool ω := ⟨circuitWindow, 0, .empty, [], false, false, 0⟩

def add (p : Pool ω) (owner : ω) : Except PoolFault (Pool ω) :=
  if p.closed ∨ maxRouteStreams ≤ p.legs.size ∨ p.legs.has owner then .error .unavailable
  else .ok { p with
    legs := p.legs.set owner ⟨p.nextSerial, 0, 0, false, 0, demandProgress, 0, false⟩
    nextSerial := p.nextSerial + 1 }

def cancel (p : Pool ω) (owner : ω) : Pool ω :=
  match p.legs.get? owner with
  | none => p
  | some leg => { p with
      legs := p.legs.set owner { leg with wanted := 0, demandOpen := false }
      pending := p.pending.filter fun r => r ≠ ⟨owner, leg.serial⟩ }

/-- `demand` up to its `_distribute`; the flag says whether it gets there. -/
def demand (p : Pool ω) (owner : ω) (amount : Int) (rateLimited : Bool) (now : Int) :
    Except PoolFault (Pool ω × Bool) :=
  match p.legs.get? owner with
  | none => .error .invalid
  | some leg =>
    if p.closed ∨ amount < 0 ∨ (circuitWindow : Int) < amount then .error .invalid
    else if amount = 0 then
      if leg.demandOpen then .ok (p.cancel owner, false) else .error .noDemand
    else if leg.wanted ≠ 0 then .error .pendingDemand
    else if circuitWindow < leg.granted + amount.toNat then .error .grantOverflow
    else if rateLimited ∧ leg.progress < demandProgress ∧ now - leg.lastDemandAt < creditIdleMs then
      .error .rateLimit
    else .ok ({ p with
      legs := p.legs.set owner { leg with
        lastDemandAt := now
        progress := leg.progress - demandProgress
        demandOpen := true
        wanted := amount.toNat }
      pending := p.pending ++ [⟨owner, leg.serial⟩] }, true)

def sent (p : Pool ω) (owner : ω) (amount : Int) (now : Int) : Except PoolFault (Pool ω) :=
  match p.legs.get? owner with
  | none => .error .invalid
  | some leg =>
    if p.closed ∨ amount < 1 ∨ (leg.granted : Int) < amount then .error .invalid
    else .ok { p with
      legs := p.legs.set owner { leg with
        granted := leg.granted - amount.toNat
        progress := min (2 * demandProgress) (leg.progress + amount.toNat)
        lastActivity := now
        idleTimer := leg.idleTimer && leg.granted - amount.toNat != 0 }
      inFlight := p.inFlight + amount.toNat }

def touch (p : Pool ω) (owner : ω) (now : Int) : Pool ω :=
  match p.legs.get? owner with
  | none => p
  | some leg =>
    if p.closed = false ∧ 0 < leg.granted then
      { p with legs := p.legs.set owner { leg with lastActivity := now } }
    else p

/-- `returned` up to its `_distribute`. -/
def returned (p : Pool ω) (amount : Int) : Except PoolFault (Pool ω) :=
  if p.closed ∨ amount < 1 ∨ (p.inFlight : Int) < amount then .error .invalid
  else .ok { p with
    inFlight := p.inFlight - amount.toNat
    available := p.available + amount.toNat }

/-- `release` up to its `_distribute`. -/
def release (p : Pool ω) (owner : ω) (amount : Int) : Except PoolFault (Pool ω) :=
  match p.legs.get? owner with
  | none => .error .invalid
  | some leg =>
    if p.closed ∨ amount < 1 ∨ (leg.granted : Int) < amount then .error .invalid
    else .ok { p with
      legs := p.legs.set owner { leg with
        granted := leg.granted - amount.toNat
        idleTimer := leg.idleTimer && leg.granted - amount.toNat != 0 }
      available := p.available + amount.toNat }

/-- `remove` up to its `_distribute`, which an unregistered owner does not reach. -/
def remove (p : Pool ω) (owner : ω) : Pool ω × Bool :=
  match p.legs.get? owner with
  | none => (p, false)
  | some leg =>
    let q := p.cancel owner
    ({ q with legs := q.legs.delete owner, available := q.available + leg.granted }, true)

def destroy (p : Pool ω) : Pool ω :=
  { p with closed := true, pending := [], legs := .empty, available := 0, inFlight := 0 }

/-- The timer of `_watchIdle` at `now`: re-armed while the owner's leg has
unread input (`busy`) or was active lately; the flag says that `onIdle` runs. -/
def idleFired (p : Pool ω) (owner : ω) (busy : Bool) (now : Int) : Pool ω × Bool :=
  match p.legs.get? owner with
  | none => (p, false)
  | some leg =>
    if p.closed ∨ leg.granted = 0 then
      ({ p with legs := p.legs.set owner { leg with idleTimer := false } }, false)
    else if busy then
      ({ p with legs := p.legs.set owner { leg with lastActivity := now, idleTimer := true } }, false)
    else if 0 < creditGrantIdleMs - (now - leg.lastActivity) then
      ({ p with legs := p.legs.set owner { leg with idleTimer := true } }, false)
    else ({ p with legs := p.legs.set owner { leg with idleTimer := false } }, true)

/-- The pool after `leg`, at the front of `pending`, is granted `amount` cells. -/
def grant (p : Pool ω) (ref : LegRef ω) (rest : List (LegRef ω)) (leg : Leg) (amount : Nat)
    (now : Int) : Pool ω :=
  { p with
    available := p.available - amount
    legs := p.legs.set ref.owner { leg with
      granted := leg.granted + amount
      wanted := leg.wanted - amount
      lastActivity := now
      idleTimer := true }
    pending := if 0 < leg.wanted - amount then rest ++ [ref] else rest }

/-- One pass of the inner loop of `_distribute` before the callback: the leg
granted and the amount, or `none` where the loop continues. -/
def grantNext (p : Pool ω) (share : Nat) (now : Int) : Pool ω × Option (ω × Nat) :=
  match p.pending with
  | [] => (p, none)
  | ref :: rest =>
    match p.legs.get? ref.owner with
    | none => ({ p with pending := rest }, none)
    | some leg =>
      if leg.serial ≠ ref.serial ∨ leg.wanted = 0 then ({ p with pending := rest }, none)
      else
        let amount := min share (min leg.wanted p.available)
        (p.grant ref rest leg amount now, some (ref.owner, amount))

/-- The loop conditions of `_distribute`. -/
def more (p : Pool ω) : Prop := 0 < p.available ∧ p.pending ≠ []

instance (p : Pool ω) : Decidable p.more := inferInstanceAs (Decidable (_ ∧ _))

end Pool

/-! ## Distribution -/

/-- A state that holds a pool, with the pool's `onGrant` callback on it: the
callback may change the whole state, the pool included, and may throw. -/
structure Host (ω σ : Type) where
  pool : σ → Pool ω
  setPool : σ → Pool ω → σ
  onGrant : ω → Nat → σ → σ × Bool
  pool_setPool : ∀ s p, pool (setPool s p) = p

namespace Host

variable {ω σ : Type} [DecidableEq ω] (H : Host ω σ)

/-- The inner loop: at most `n` grants of at most `share` cells. The flag says
that a callback threw. -/
def round (share : Nat) (now : Int) : Nat → σ → σ × Bool
  | 0, s => (s, false)
  | n + 1, s =>
    if (H.pool s).more then
      match (H.pool s).grantNext share now with
      | (p, none) => round share now n (H.setPool s p)
      | (p, some (owner, amount)) =>
        match H.onGrant owner amount (H.setPool s p) with
        | (s', true) => (s', true)
        | (s', false) => round share now n s'
    else (s, false)

/-- The outer loop, at most `fuel` rounds. -/
def rounds (now : Int) : Nat → σ → σ × Bool
  | 0, s => (s, false)
  | fuel + 1, s =>
    if (H.pool s).more then
      let count := (H.pool s).pending.length
      match H.round (max 1 ((H.pool s).available / count)) now count s with
      | (s', true) => (s', true)
      | (s', false) => rounds now fuel s'
    else (s, false)

/-- `_distribute`. The `finally` clause clears `distributing` on both exits. -/
def distribute (fuel : Nat) (now : Int) (s : σ) : σ × Bool :=
  if (H.pool s).closed ∨ (H.pool s).distributing then (s, false)
  else
    let (s', threw) := H.rounds now fuel (H.setPool s { H.pool s with distributing := true })
    (H.setPool s' { H.pool s' with distributing := false }, threw)

section Frame

/-! What neither the pool's place in the state nor a callback changes, a distribution keeps. -/

variable {H} {β : Type} {g : σ → β} (hset : ∀ s p, g (H.setPool s p) = g s)
  (hgrant : ∀ owner amount s, g (H.onGrant owner amount s).1 = g s)

include hset hgrant

theorem round_frame (share : Nat) (now : Int) (n : Nat) (s : σ) :
    g (H.round share now n s).1 = g s := by
  induction n generalizing s with
  | zero => rfl
  | succ n ih =>
    rw [round]
    split
    · split
      · next p _ => rw [ih, hset]
      · next p owner amount _ =>
        have h := hgrant owner amount (H.setPool s p)
        rw [hset] at h
        split
        · next s' he => rw [← h, he]
        · next s' he => rw [ih, ← h, he]
    · rfl

theorem rounds_frame (now : Int) (fuel : Nat) (s : σ) : g (H.rounds now fuel s).1 = g s := by
  induction fuel generalizing s with
  | zero => rfl
  | succ fuel ih =>
    rw [rounds]
    split
    · have h := round_frame hset hgrant (max 1 ((H.pool s).available / (H.pool s).pending.length)) now
        (H.pool s).pending.length s
      dsimp only
      split
      · next s' he => rw [← h, he]
      · next s' he => rw [ih, ← h, he]
    · rfl

theorem distribute_frame (fuel : Nat) (now : Int) (s : σ) : g (H.distribute fuel now s).1 = g s := by
  unfold distribute
  split
  · rfl
  · show g (H.setPool _ _) = g s
    rw [hset, rounds_frame hset hgrant, hset]

end Frame

end Host

end HyperDht.Private
