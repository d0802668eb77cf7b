import HyperDht.Dht.MessageSites
import HyperDht.Lib.Tally

/-!
# The NAT sampler

`Nat` of `lib/nat.js`: a node asks others under which address they see it, counts the
answers by host and by full address, and decides from the counts whether its NAT keeps
one address (`CONSISTENT`) or takes a new one for every peer (`RANDOM`). A reporting
node counts once.
-/

namespace HyperDht.NatSamples

open Messages (Firewall)

variable {α : Type} [DecidableEq α]

structure HostPort (α : Type) where
  host : α
  port : Nat
deriving DecidableEq, Repr

instance : LawfulBEq (HostPort α) := instLawfulBEq

/-- `_visited` holds the nodes whose answer is counted. -/
structure NatState (α : Type) where
  samplesHost : List (Hit (HostPort α))
  samplesFull : List (Hit (HostPort α))
  visited : List (HostPort α)
  sampled : Nat
  firewall : Firewall
  addresses : Option (List (Hit (HostPort α)))
  frozen : Bool
deriving DecidableEq

namespace NatState

def new (firewalled : Bool) : NatState α where
  samplesHost := []
  samplesFull := []
  visited := []
  sampled := 0
  firewall := if firewalled then .unknown else .opened
  addresses := none
  frozen := false

/-- The verdict of `_updateFirewall` from three samples on; `none` where it leaves the one there is. -/
def decision (s : NatState α) : Option Firewall :=
  match s.samplesFull with
  | [] => none
  | first :: rest =>
    if 3 ≤ first.hits then some .consistent
    else if first.hits = 1 then some .random
    -- from here on the most hit address has two hits
    else if s.samplesHost.length = 1 ∧ 3 < s.sampled then some .random
    else if 1 < s.samplesHost.length ∧ ∃ second ∈ rest[0]?, 1 < second.hits then some .consistent
    else if 4 < s.sampled then some .random
    else none

def updateFirewall (firewalled : Bool) (s : NatState α) : NatState α :=
  if firewalled = false then { s with firewall := .opened }
  else if s.sampled < 3 then s
  else
    match s.decision with
    | none => s
    | some firewall => { s with firewall }

/-- The addresses of a consistent NAT: all that have two hits, and two in any case. -/
def pickAddresses (samples : List (Hit (HostPort α))) : List (Hit (HostPort α)) :=
  samples.foldl (fun l s => if 2 ≤ s.hits ∨ l.length < 2 then l ++ [s] else l) []

def updateAddresses (s : NatState α) : NatState α :=
  match s.firewall with
  | .unknown => { s with addresses := none }
  | .random => { s with addresses := some (s.samplesHost.take 1) }
  | .consistent => { s with addresses := some (pickAddresses s.samplesFull) }
  | .opened => s

def update (firewalled : Bool) (s : NatState α) : NatState α :=
  let s := if firewalled ∧ s.firewall = .opened then { s with firewall := .unknown } else s
  (s.updateFirewall firewalled).updateAddresses

/-- `add` of the address that `sender` observed. -/
def add (firewalled : Bool) (s : NatState α) (addr sender : HostPort α) : NatState α :=
  if sender ∈ s.visited then s
  else
    let s := { s with
      visited := sender :: s.visited
      samplesHost := addHit s.samplesHost ⟨addr.host, 0⟩
      samplesFull := addHit s.samplesFull addr
      sampled := s.sampled + 1 }
    if (3 ≤ s.sampled ∨ firewalled = false) ∧ s.frozen = false then s.update firewalled else s

def freeze (s : NatState α) : NatState α := { s with frozen := true }

def unfreeze (firewalled : Bool) (s : NatState α) : NatState α :=
  ({ s with frozen := false }.updateFirewall firewalled).updateAddresses

end NatState

end HyperDht.NatSamples
