import HyperDht.Lib.Forest
import HyperDht.Private.MemoryPools

/-!
# Ledgers

A ledger holds an allocation on three axes (cells, bytes, commands). A child
ledger is reserved out of its parent's allocation; a charge to it is a charge to
every ledger above it, and releasing it gives what is unspent back to its parent.
A handle is the number of its ledger in the order of their creation.

Every function gives the state it leaves and its result, also where the source
throws. `narrowPeerReservations` works on ledgers and on memory reservations
together, so the memory pools are part of the state.
-/

namespace HyperDht.Private

inductive Axis where
  | cells
  | bytes
  | commands
  deriving DecidableEq, Repr

structure Row where
  cells : Int
  bytes : Int
  commands : Int
  deriving DecidableEq, Repr

namespace Row

def get (r : Row) : Axis → Int
  | .cells => r.cells
  | .bytes => r.bytes
  | .commands => r.commands

instance : Zero Row := ⟨⟨0, 0, 0⟩⟩
instance : Add Row := ⟨fun r s => ⟨r.cells + s.cells, r.bytes + s.bytes, r.commands + s.commands⟩⟩
instance : Sub Row := ⟨fun r s => ⟨r.cells - s.cells, r.bytes - s.bytes, r.commands - s.commands⟩⟩

/-- `checkU32` and `checkU64` of the three amounts. -/
def valid (r : Row) : Bool :=
  0 ≤ r.cells && r.cells ≤ maxU32 && 0 ≤ r.bytes && r.bytes ≤ maxU64 && 0 ≤ r.commands &&
    r.commands ≤ maxU32

/-- No axis of `r` exceeds the one of `s`. -/
def fits (r s : Row) : Bool := r.cells ≤ s.cells && r.bytes ≤ s.bytes && r.commands ≤ s.commands

@[simp] theorem get_zero (a : Axis) : (0 : Row).get a = 0 := by cases a <;> rfl
@[simp] theorem get_add (r s : Row) (a : Axis) : (r + s).get a = r.get a + s.get a := by
  cases a <;> rfl
@[simp] theorem get_sub (r s : Row) (a : Axis) : (r - s).get a = r.get a - s.get a := by
  cases a <;> rfl

theorem get_nonneg {r : Row} (h : r.valid = true) (a : Axis) : 0 ≤ r.get a := by
  simp only [valid, Bool.and_eq_true, decide_eq_true_eq] at h
  cases a with
  | cells => exact h.1.1.1.1.1
  | bytes => exact h.1.1.1.2
  | commands => exact h.1.2

theorem get_le {r s : Row} (h : r.fits s = true) (a : Axis) : r.get a ≤ s.get a := by
  simp only [fits, Bool.and_eq_true, decide_eq_true_eq] at h
  cases a with
  | cells => exact h.1.1
  | bytes => exact h.1.2
  | commands => exact h.2

end Row

structure Ledger where
  parent : Option Nat
  allocated : Row
  spent : Row
  directCellsSpent : Int
  reserved : Row
  released : Bool
  children : List Nat
  deriving DecidableEq, Repr

structure Ledgers where
  states : List Ledger
  memory : MemoryTree

namespace Ledger

/-- What is neither spent nor reserved. -/
def remaining (l : Ledger) : Row := l.allocated - l.spent - l.reserved

/-- What a release gives back. -/
def unspent (l : Ledger) : Row := l.allocated - l.spent

def new (parent : Option Nat) (row : Row) : Ledger := ⟨parent, row, 0, 0, 0, false, []⟩

def charge (l : Ledger) (row : Row) : Ledger :=
  { l with spent := l.spent + row, directCellsSpent := l.directCellsSpent + row.cells }

def chargeBelow (l : Ledger) (row : Row) : Ledger :=
  { l with reserved := l.reserved - row, spent := l.spent + row }

def forget (l : Ledger) (child : Nat) (unspent : Row) : Ledger :=
  { l with reserved := l.reserved - unspent, children := l.children.filter (· ≠ child) }

end Ledger

namespace Ledgers

def empty (memory : MemoryTree) : Ledgers := ⟨[], memory⟩

def modify (t : Ledgers) (h : Nat) (f : Ledger → Ledger) : Ledgers :=
  { t with states := t.states.modify h f }

/-- A new ledger; its handle is the number of ledgers before it. -/
def add (t : Ledgers) (l : Ledger) : Ledgers := { t with states := t.states ++ [l] }

def createPeerLedger (t : Ledgers) (row : Row) : Ledgers × Except LedgerError Nat :=
  if row.valid = false then (t, .error .invalidRoute)
  else (t.add (.new none row), .ok t.states.length)

def reservePeerLedger (t : Ledgers) (parent : Nat) (row : Row) : Ledgers × Except LedgerError Nat :=
  match t.states[parent]? with
  | none => (t, .error .invalidRoute)
  | some p =>
    if p.released then (t, .error .invalidRoute)
    else if row.valid = false then (t, .error .invalidRoute)
    else if row.fits p.remaining = false then (t, .error .invalidRoute)
    else
      ((t.modify parent fun p => { p with
          reserved := p.reserved + row
          children := p.children ++ [t.states.length] }).add (.new (some parent) row),
        .ok t.states.length)

/-- The loop over the ledgers above a charge; it makes at most `fuel` rounds. -/
def chargeAbove (row : Row) : Nat → Option Nat → Ledgers → Ledgers
  | 0, _, t => t
  | _ + 1, none, t => t
  | fuel + 1, some current, t =>
    match t.states[current]? with
    | none => t
    | some l => chargeAbove row fuel l.parent (t.modify current (·.chargeBelow row))

def chargePeerLedger (t : Ledgers) (handle : Nat) (row : Row) : Ledgers × Except LedgerError Unit :=
  match t.states[handle]? with
  | none => (t, .error .invalidRoute)
  | some l =>
    if l.released then (t, .error .invalidRoute)
    else if row.valid = false then (t, .error .invalidRoute)
    else if row.fits l.remaining = false then (t, .error .invalidRoute)
    else (chargeAbove row t.states.length l.parent (t.modify handle (·.charge row)), .ok ())

/-- The recursion of `releasePeerLedger`, at most `fuel` calls deep: the ledger
is marked, then its children release themselves, then it leaves its parent. -/
def release : Nat → Nat → Ledgers → Ledgers
  | 0, _, t => t
  | fuel + 1, handle, t =>
    match t.states[handle]? with
    | none => t
    | some l =>
      if l.released then t
      else
        let t := t.modify handle fun l => { l with released := true }
        let t := l.children.foldl (fun t child => release fuel child t) t
        let t := t.modify handle fun l => { l with children := [] }
        match l.parent with
        | none => t
        | some parent => t.modify parent (·.forget handle l.unspent)

def releasePeerLedger (t : Ledgers) (handle : Nat) : Ledgers × Except LedgerError Bool :=
  match t.states[handle]? with
  | none => (t, .error .invalidRoute)
  | some l => if l.released then (t, .ok false) else (release t.states.length handle t, .ok true)

/-! ## Narrowing -/

/-- A row of `narrowPeerReservations`: a ledger and its new allocation. -/
structure LedgerPlan where
  handle : Nat
  row : Row
  deriving DecidableEq, Repr

/-- The first pass over the ledger rows, in order: `seen` holds the handles of
the rows before. -/
def admissible (t : Ledgers) (seen : List Nat) : List LedgerPlan → Bool
  | [] => true
  | plan :: plans =>
    match t.states[plan.handle]? with
    | none => false
    | some l =>
      !l.released && !seen.contains plan.handle && plan.row.fits l.allocated &&
        t.admissible (plan.handle :: seen) plans

/-- What a row gives back to the parent of its ledger, if that is `parent`. -/
def returnedBy (t : Ledgers) (parent : Nat) (plan : LedgerPlan) : Row :=
  match t.states[plan.handle]? with
  | none => 0
  | some l => if l.parent = some parent then l.allocated - plan.row else 0

/-- `returnedToParent`: what all rows together give back to a ledger. -/
def returnedTo (t : Ledgers) (parent : Nat) (plans : List LedgerPlan) : Row :=
  plans.foldl (fun sum plan => sum + t.returnedBy parent plan) 0

/-- The second pass: a row covers what its ledger has spent and reserved. -/
def covers (t : Ledgers) (plans : List LedgerPlan) (plan : LedgerPlan) : Bool :=
  match t.states[plan.handle]? with
  | none => false
  | some l => (l.spent + l.reserved - t.returnedTo plan.handle plans).fits plan.row

/-- One ledger row takes effect. -/
def narrowLedger (t : Ledgers) (plan : LedgerPlan) : Ledgers :=
  match t.states[plan.handle]? with
  | none => t
  | some l =>
    let t := t.modify plan.handle fun l => { l with allocated := plan.row }
    match l.parent with
    | none => t
    | some parent =>
      t.modify parent fun p => { p with reserved := p.reserved - (l.allocated - plan.row) }

/-- `narrowPeerReservations`. Nothing changes before every row is checked. -/
def narrowPeerReservations (t : Ledgers) (ledgers : List LedgerPlan) (memory : List MemoryPlan) :
    Ledgers × Except LedgerError Unit :=
  if ledgers.all (fun plan => plan.row.valid) = false ∨
      memory.all (fun plan => checkU32 plan.capacityBytes) = false then
    (t, .error .invalidRoute)
  else if t.admissible [] ledgers = false then (t, .error .invalidRoute)
  else if ledgers.all (t.covers ledgers) = false then (t, .error .invalidRoute)
  else if t.memory.narrowable [] memory = false then (t, .error .invalidRoute)
  else
    ({ ledgers.foldl narrowLedger t with memory := memory.foldl MemoryTree.narrowRow t.memory },
      .ok ())

end Ledgers

end HyperDht.Private
