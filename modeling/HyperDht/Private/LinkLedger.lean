import HyperDht.Private.LedgerTree
import HyperDht.Private.Logical

/-!
# The ledgers of a link

Every cell a `CircuitLink` sends or receives is charged to its ledger of that
direction. A multiplexed link starts with the control cells only; an OPEN or
SPLICE_OPEN frame, sent or received, that raises the admission frontier replaces
both ledgers by ones that hold what is unspent and one stream's allowance more.

The model keeps beside the link which stream ids raised the frontier, how many
cells were charged, and every allocation it made.
-/

namespace HyperDht.Private

/-- `LOGICAL_OPEN` and `LOGICAL_SPLICE_OPEN`. -/
def openFlag : UInt8 := 1
def spliceOpenFlag : UInt8 := 7

def readU32 (bytes : List UInt8) : Nat :=
  (bytes.take 4).foldl (fun n b => n * 256 + b.toNat) 0

/-- The allocation of a number of cells: bytes and commands follow the cells. -/
def cellRow (cells : Int) : Row := ⟨cells, cells * cellSize, cells⟩

def cellCharge : Row := ⟨1, cellSize, 1⟩

inductive Side where
  | send
  | receive
  deriving DecidableEq, Repr

structure LinkLedgers where
  maxStreams : Nat
  ledgers : Ledgers
  handles : Side → Nat
  admissionFrontier : Nat
  destroyed : Bool
  raised : List Nat
  charged : Side → Nat
  created : List Row

namespace LinkLedgers

def multiplexed (s : LinkLedgers) : Bool := 1 < s.maxStreams

def ledgerLimit (s : LinkLedgers) : Nat := s.maxStreams * maxStreamCells + maxControlCells

/-- The ledgers of a new link; the allocation fits, so neither creation throws. -/
def new (maxStreams : Nat) (memory : MemoryTree) : LinkLedgers :=
  let limit := maxStreams * maxStreamCells + maxControlCells
  let row := cellRow (if 1 < maxStreams then maxControlCells else limit : Nat)
  let t := ((Ledgers.empty memory).createPeerLedger row).1
  ⟨maxStreams, (t.createPeerLedger row).1, fun | .send => 0 | .receive => 1, 0, false, [],
    fun _ => 0, [row, row]⟩

def isOpening (payload : List UInt8) : Bool :=
  payload.length = logicalHeaderBytes && payload[4]? = some openFlag ||
    payload.length = logicalHeaderBytes + 4 && payload[4]? = some spliceOpenFlag

/-- Does a payload raise the admission frontier? -/
def raises (s : LinkLedgers) (payload : List UInt8) : Bool :=
  s.multiplexed && isOpening payload && readU32 payload ≠ 0 && readU32 payload % 2 = 0 &&
    s.admissionFrontier < readU32 payload

/-- What is left of a ledger, in whole cells. -/
def available (l : Ledger) : Int :=
  min (min l.remaining.cells l.remaining.commands) (l.remaining.bytes / cellSize)

/-- One round of the loop of `_fundAdmission`. -/
def refill (s : LinkLedgers) (side : Side) : LinkLedgers × Except LedgerError Unit :=
  match s.ledgers.states[s.handles side]? with
  | none => (s, .error .invalidRoute)
  | some previous =>
    let row := cellRow (min s.ledgerLimit (available previous + maxStreamCells))
    let s := { s with created := row :: s.created }
    match s.ledgers.createPeerLedger row with
    | (_, .error e) => (s, .error e)
    | (ledgers, .ok handle) =>
      ({ s with
        ledgers := (ledgers.releasePeerLedger (s.handles side)).1
        handles := Function.update s.handles side handle }, .ok ())

def _fundAdmission (s : LinkLedgers) (payload : List UInt8) : LinkLedgers × Except LedgerError Unit :=
  if s.raises payload = false then (s, .ok ())
  else
    let s := { s with
      admissionFrontier := readU32 payload
      raised := readU32 payload :: s.raised }
    match s.refill .send with
    | (s, .error e) => (s, .error e)
    | (s, .ok _) => s.refill .receive

def charge (s : LinkLedgers) (side : Side) : LinkLedgers × Except LedgerError Unit :=
  match s.ledgers.chargePeerLedger (s.handles side) cellCharge with
  | (_, .error e) => (s, .error e)
  | (ledgers, .ok _) =>
    ({ s with ledgers, charged := Function.update s.charged side (s.charged side + 1) }, .ok ())

def destroy (s : LinkLedgers) : LinkLedgers :=
  if s.destroyed then s
  else
    { s with
      destroyed := true
      ledgers := ((s.ledgers.releasePeerLedger (s.handles .send)).1.releasePeerLedger
        (s.handles .receive)).1 }

def orDestroy : LinkLedgers × Except LedgerError Unit → LinkLedgers
  | (s, .error _) => s.destroy
  | (s, .ok _) => s

/-- A payload is sealed (`_flushSends`): it funds, then the cell is charged. -/
def sealCell (s : LinkLedgers) (payload : List UInt8) : LinkLedgers :=
  match s._fundAdmission payload with
  | (s, .error _) => s.destroy
  | (s, .ok _) => orDestroy (s.charge .send)

/-- What happens to a link: `_openCell` charges the cell that arrives (`cell`) and
then funds each payload the receiver releases (`payload`), which may be none. -/
inductive LinkEvent where
  | sealed (payload : List UInt8)
  | cell
  | payload (payload : List UInt8)
  | destroy
  deriving DecidableEq, Repr

def step (s : LinkLedgers) (e : LinkEvent) : LinkLedgers :=
  if s.destroyed then s
  else
    match e with
    | .sealed payload => s.sealCell payload
    | .cell => orDestroy (s.charge .receive)
    | .payload payload => orDestroy (s._fundAdmission payload)
    | .destroy => s.destroy

def run (s : LinkLedgers) (events : List LinkEvent) : LinkLedgers := events.foldl step s

/-- `readPeerLedger(...).cellsRemaining`. -/
def remaining (s : LinkLedgers) (side : Side) : Int :=
  match s.ledgers.states[s.handles side]? with
  | none => 0
  | some l => l.remaining.cells

end LinkLedgers

/-! ## A ledger that only cells are charged to -/

namespace Ledgers

/-- The ledger `h` has no relatives, and `left` whole cells of at most `limit` on
every axis. -/
structure Funds (t : Ledgers) (h : Nat) (limit left : Int) (released : Bool) : Prop where
  exists_ledger : ∃ (l : Ledger) (spent : Int), t.states[h]? = some l ∧ l.parent = none ∧
    l.children = [] ∧ l.reserved = 0 ∧ l.allocated = cellRow (spent + left) ∧
    l.spent = cellRow spent ∧ 0 ≤ spent ∧ l.released = released
  nonneg : 0 ≤ left
  le_limit : left ≤ limit

theorem cellRow_sub (m n : Int) : cellRow m - cellRow n = cellRow (m - n) := by
  show Row.mk (m - n) (m * cellSize - n * cellSize) (m - n) = Row.mk _ _ _
  rw [Int.sub_mul]

theorem sub_zero_row (r : Row) : r - 0 = r := by
  show Row.mk (r.cells - 0) (r.bytes - 0) (r.commands - 0) = r
  simp only [Int.sub_zero]

theorem Funds.remaining {t : Ledgers} {h : Nat} {limit left : Int} {released : Bool}
    (hf : t.Funds h limit left released) {l : Ledger} (hl : t.states[h]? = some l) :
    l.remaining = cellRow left := by
  obtain ⟨l', spent, hl', -, -, hres, halloc, hspent, -, -⟩ := hf.exists_ledger
  obtain rfl := Option.some.inj (hl.symm.trans hl')
  rw [Ledger.remaining, halloc, hspent, hres, cellRow_sub, sub_zero_row]
  congr 1
  omega

theorem Funds.congr {t t' : Ledgers} {h : Nat} {limit left : Int} {released : Bool}
    (hf : t.Funds h limit left released) (hsame : t'.states[h]? = t.states[h]?) :
    t'.Funds h limit left released := by
  obtain ⟨⟨l, spent, hl, hrest⟩, h₁, h₂⟩ := hf
  exact ⟨⟨l, spent, hsame.trans hl, hrest⟩, h₁, h₂⟩

theorem Funds.lt_length {t : Ledgers} {h : Nat} {limit left : Int} {released : Bool}
    (hf : t.Funds h limit left released) : h < t.states.length := by
  obtain ⟨l, -, hl, -⟩ := hf.exists_ledger
  exact (List.getElem?_eq_some_iff.mp hl).1

theorem chargeAbove_none (row : Row) (fuel : Nat) (t : Ledgers) : chargeAbove row fuel none t = t := by
  cases fuel with
  | zero => rfl
  | succ n => rfl

theorem Funds.charge {t : Ledgers} {h : Nat} {limit left : Int} (hf : t.Funds h limit left false) :
    left = 0 ∧ t.chargePeerLedger h cellCharge = (t, .error .invalidRoute) ∨
      ∃ t', t.chargePeerLedger h cellCharge = (t', .ok ()) ∧ t'.Funds h limit (left - 1) false ∧
        ∀ x, x ≠ h → t'.states[x]? = t.states[x]? := by
  obtain ⟨l, spent, hl, hpar, hkids, hres, halloc, hspent, hpos, hrel⟩ := hf.exists_ledger
  have hnn := hf.nonneg
  have hlim := hf.le_limit
  have hvalid : cellCharge.valid = true := by decide
  have hfits : cellCharge.fits l.remaining = decide (1 ≤ left) := by
    rw [hf.remaining hl, Bool.eq_iff_iff, decide_eq_true_eq]
    constructor
    · intro hfit
      exact Row.get_le hfit .cells
    · intro hone
      have hbytes : (cellSize : Int) ≤ left * cellSize := by
        have := Int.mul_le_mul_of_nonneg_right hone (Int.natCast_nonneg cellSize)
        rwa [Int.one_mul] at this
      simp only [Row.fits, cellRow, cellCharge, Bool.and_eq_true]
      exact ⟨⟨decide_eq_true hone, decide_eq_true hbytes⟩, decide_eq_true hone⟩
  unfold chargePeerLedger
  rw [hl]
  dsimp only
  rw [if_neg (by rw [hrel]; exact Bool.false_ne_true), if_neg (by rw [hvalid]; simp), hfits, hpar,
    chargeAbove_none]
  by_cases hone : 1 ≤ left
  · rw [decide_eq_true hone, if_neg (by simp)]
    refine .inr ⟨_, rfl, ⟨⟨l.charge cellCharge, spent + 1, get_modify_self hl _, hpar, hkids, hres,
      ?_, ?_, by omega, hrel⟩, by omega, by omega⟩, fun x hx => get_modify_ne (Ne.symm hx) _⟩
    · show l.allocated = _
      rw [halloc]
      congr 1
      omega
    · show l.spent + cellCharge = _
      rw [hspent]
      show Row.mk (spent + 1) (spent * cellSize + cellSize) (spent + 1) = Row.mk _ _ _
      rw [Int.add_mul, Int.one_mul]
  · rw [decide_eq_false hone, if_pos rfl]
    exact .inl ⟨by omega, rfl⟩

theorem Funds.release {t : Ledgers} {h : Nat} {limit left : Int} {released : Bool}
    (hf : t.Funds h limit left released) :
    (t.releasePeerLedger h).1.Funds h limit left true ∧
      ∀ x, x ≠ h → (t.releasePeerLedger h).1.states[x]? = t.states[x]? := by
  obtain ⟨l, spent, hl, hpar, hkids, hres, halloc, hspent, hpos, hrel⟩ := hf.exists_ledger
  unfold releasePeerLedger
  rw [hl]
  dsimp only
  cases hr : l.released with
  | true =>
    rw [if_pos rfl]
    exact ⟨⟨⟨l, spent, hl, hpar, hkids, hres, halloc, hspent, hpos, hr⟩, hf.nonneg, hf.le_limit⟩,
      fun x _ => rfl⟩
  | false =>
    rw [if_neg Bool.false_ne_true]
    have hn := hf.lt_length
    obtain ⟨n, hn'⟩ : ∃ n, t.states.length = n + 1 := ⟨t.states.length - 1, by omega⟩
    dsimp only
    rw [hn', Ledgers.release, hl]
    dsimp only
    rw [hr, if_neg Bool.false_ne_true, hkids, hpar]
    dsimp only [List.foldl_nil]
    have h₁ := get_modify_self hl fun l => { l with released := true }
    have h₂ := get_modify_self h₁ fun l => { l with children := [] }
    refine ⟨⟨⟨_, spent, h₂, hpar, rfl, hres, halloc, hspent, hpos, rfl⟩, hf.nonneg, hf.le_limit⟩,
      fun x hx => ?_⟩
    rw [get_modify_ne (Ne.symm hx), get_modify_ne (Ne.symm hx)]

theorem funds_add {t : Ledgers} {limit cells : Int} (hpos : 0 ≤ cells) (hlim : cells ≤ limit) :
    (t.add (.new none (cellRow cells))).Funds t.states.length limit cells false := by
  refine ⟨⟨_, 0, by rw [get_add, if_pos rfl], rfl, rfl, rfl, ?_, ?_, le_rfl, rfl⟩, hpos, hlim⟩
  · show cellRow cells = _
    rw [Int.zero_add]
  · show (0 : Row) = cellRow 0
    show Row.mk 0 0 0 = Row.mk 0 (0 * cellSize) 0
    rw [Int.zero_mul]

theorem Funds.add {t : Ledgers} {h : Nat} {limit left : Int} {released : Bool}
    (hf : t.Funds h limit left released) (l : Ledger) : (t.add l).Funds h limit left released := by
  have := hf.lt_length
  refine hf.congr ?_
  rw [get_add, if_neg (by omega)]

end Ledgers

namespace LinkLedgers

/-! ## The funding of a multiplexed link -/

/-- The limit of a multiplexed link fits the ledger, and its bytes are exact as a
JavaScript number. -/
theorem ledgerLimit_fits : ((maxRouteStreams * maxStreamCells + maxControlCells : Nat) : Int) ≤ maxU32 ∧
    (maxRouteStreams * maxStreamCells + maxControlCells) * cellSize < 2 ^ 53 := by decide

theorem cellRow_valid {cells : Int} (hpos : 0 ≤ cells)
    (hlim : cells ≤ (maxRouteStreams * maxStreamCells + maxControlCells : Nat)) :
    (cellRow cells).valid = true := by
  have h₁ : cells ≤ maxU32 := hlim.trans ledgerLimit_fits.1
  have h₂ : cells * cellSize ≤ maxU64 := by
    have : maxU32 * cellSize ≤ maxU64 := by decide
    exact (Int.mul_le_mul_of_nonneg_right h₁ (Int.natCast_nonneg _)).trans this
  have h₃ : 0 ≤ cells * cellSize := Int.mul_nonneg hpos (Int.natCast_nonneg _)
  simp only [Row.valid, cellRow, Bool.and_eq_true]
  exact ⟨⟨⟨⟨⟨decide_eq_true hpos, decide_eq_true h₁⟩, decide_eq_true h₃⟩, decide_eq_true h₂⟩,
    decide_eq_true hpos⟩, decide_eq_true h₁⟩

def funding (s : LinkLedgers) : Int := maxControlCells + s.raised.length * maxStreamCells

/-- What holds of a multiplexed link after every event. -/
structure Funded (s : LinkLedgers) : Prop where
  streams : s.maxStreams = maxRouteStreams
  distinct : s.handles .send ≠ s.handles .receive
  funds : ∀ side, ∃ left, s.ledgers.Funds (s.handles side) s.ledgerLimit left s.destroyed ∧
    s.charged side + left ≤ s.funding
  sorted : s.raised.Pairwise (· > ·)
  frontier : ∀ id ∈ s.raised, id ≤ s.admissionFrontier
  created : ∀ row ∈ s.created, ∃ cells : Int, row = cellRow cells ∧ 0 ≤ cells ∧ cells ≤ s.ledgerLimit

theorem Funded.ledgerLimit_eq {s : LinkLedgers} (h : s.Funded) :
    s.ledgerLimit = maxRouteStreams * maxStreamCells + maxControlCells := by
  rw [ledgerLimit, h.streams]

theorem remaining_eq {s : LinkLedgers} {side : Side} {limit left : Int} {released : Bool}
    (hf : s.ledgers.Funds (s.handles side) limit left released) : s.remaining side = left := by
  obtain ⟨l, -, hl, -⟩ := hf.exists_ledger
  rw [remaining, hl]
  dsimp only
  rw [hf.remaining hl]
  rfl

theorem available_eq {t : Ledgers} {h : Nat} {limit left : Int} {released : Bool}
    (hf : t.Funds h limit left released) {l : Ledger} (hl : t.states[h]? = some l) :
    available l = left := by
  have hdiv : left * (cellSize : Int) / cellSize = left := Int.mul_ediv_cancel left (by decide)
  unfold available
  rw [hf.remaining hl]
  show min (min left left) (left * cellSize / cellSize) = left
  rw [hdiv, min_self, min_self]

theorem controlCells_le : (0 : Int) ≤ (maxControlCells : Nat) ∧ ((maxControlCells : Nat) : Int) ≤
    (maxRouteStreams * maxStreamCells + maxControlCells : Nat) := by decide

theorem funds_new (memory : MemoryTree) (side : Side) :
    (new maxRouteStreams memory).ledgers.Funds ((new maxRouteStreams memory).handles side)
      (new maxRouteStreams memory).ledgerLimit (maxControlCells : Nat) false := by
  obtain ⟨hpos, hlim⟩ := controlCells_le
  have hvalid := cellRow_valid hpos hlim
  have hcreate : ∀ t : Ledgers, (t.createPeerLedger (cellRow (maxControlCells : Nat))).1 =
      t.add (.new none (cellRow (maxControlCells : Nat))) := by
    intro t
    rw [Ledgers.createPeerLedger, if_neg (by rw [hvalid]; simp)]
  have hnew : (new maxRouteStreams memory).ledgers =
      ((Ledgers.empty memory).add (.new none (cellRow (maxControlCells : Nat)))).add
        (.new none (cellRow (maxControlCells : Nat))) := by
    show ((_ : Ledgers).createPeerLedger _).1 = _
    rw [← hcreate, ← hcreate]
    rfl
  rw [hnew]
  cases side with
  | send => exact (Ledgers.funds_add hpos hlim).add _
  | receive => exact Ledgers.funds_add hpos hlim

theorem funded_new (memory : MemoryTree) : (new maxRouteStreams memory).Funded := by
  refine ⟨rfl, Nat.zero_ne_one, fun side => ⟨(maxControlCells : Nat), funds_new memory side, ?_⟩,
    List.Pairwise.nil, fun id h => absurd h List.not_mem_nil, fun row hrow =>
      ⟨(maxControlCells : Nat), ?_, controlCells_le.1, controlCells_le.2⟩⟩
  · show ((0 : Nat) : Int) + (maxControlCells : Nat) ≤ maxControlCells + ((0 : Nat) : Int) * _
    omega
  · rcases List.mem_cons.mp hrow with rfl | hrow
    · rfl
    · exact List.mem_singleton.mp hrow

/-- One direction takes a stream's allowance; `s.funding` counts it already. -/
theorem refill_spec (s : LinkLedgers) (hstreams : s.maxStreams = maxRouteStreams)
    (side other : Side) (hdist : s.handles other ≠ s.handles side) {left left' : Int}
    (hf : s.ledgers.Funds (s.handles side) s.ledgerLimit left false)
    (hf' : s.ledgers.Funds (s.handles other) s.ledgerLimit left' false) :
    ∃ (ledgers : Ledgers) (handle : Nat) (cells : Int),
      s.refill side = ({ s with
        ledgers, handles := Function.update s.handles side handle,
        created := cellRow cells :: s.created }, .ok ()) ∧
      0 ≤ cells ∧ cells = min (s.ledgerLimit : Int) (left + maxStreamCells) ∧
      handle ≠ s.handles other ∧ ledgers.Funds handle s.ledgerLimit cells false ∧
      ledgers.Funds (s.handles other) s.ledgerLimit left' false := by
  obtain ⟨l, -, hl, -⟩ := hf.exists_ledger
  have hlimit : s.ledgerLimit = maxRouteStreams * maxStreamCells + maxControlCells := by
    rw [ledgerLimit, hstreams]
  set cells : Int := min s.ledgerLimit (left + maxStreamCells) with hcells
  have hpos : 0 ≤ cells := by
    have := hf.nonneg
    omega
  have hle : cells ≤ s.ledgerLimit := min_le_left _ _
  have hvalid : (cellRow cells).valid = true := cellRow_valid hpos (hlimit ▸ hle)
  have hlt := hf.lt_length
  have hlt' := hf'.lt_length
  have hnew : (s.ledgers.add (.new none (cellRow cells))).Funds s.ledgers.states.length
      s.ledgerLimit cells false := Ledgers.funds_add hpos hle
  obtain ⟨-, hrel⟩ := (hf.add (.new none (cellRow cells))).release
  refine ⟨_, s.ledgers.states.length, cells, ?_, hpos, hcells, by omega,
    hnew.congr (hrel _ (by omega)), (hf'.add _).congr (hrel _ hdist)⟩
  rw [refill, hl]
  dsimp only
  rw [available_eq hf hl, ← hcells, Ledgers.createPeerLedger, if_neg (by rw [hvalid]; simp)]

theorem raises_iff {s : LinkLedgers} {payload : List UInt8} (h : s.raises payload = true) :
    s.admissionFrontier < readU32 payload := by
  simp only [raises, Bool.and_eq_true, decide_eq_true_eq] at h
  exact h.2

/-- A payload that raises the frontier funds both directions; any other changes
nothing. -/
theorem Funded.fund {s : LinkLedgers} (h : s.Funded) (hlive : s.destroyed = false)
    (payload : List UInt8) : ∃ s', s._fundAdmission payload = (s', .ok ()) ∧ s'.Funded ∧
      s'.destroyed = false ∧ (s.raises payload = false → s' = s) ∧
      (s.raises payload = true → s'.raised = readU32 payload :: s.raised ∧
        s'.admissionFrontier = readU32 payload ∧
        ∀ side, s'.remaining side = min (s.ledgerLimit : Int) (s.remaining side + maxStreamCells)) := by
  unfold _fundAdmission
  cases hr : s.raises payload with
  | false =>
    exact ⟨s, by rw [if_pos rfl], h, hlive, fun _ => rfl, fun h => by cases h⟩
  | true =>
    rw [if_neg Bool.true_eq_false.mp]
    obtain ⟨left, hf, hle⟩ := h.funds .send
    obtain ⟨left', hf', hle'⟩ := h.funds .receive
    rw [hlive] at hf hf'
    set s₀ : LinkLedgers := { s with
      admissionFrontier := readU32 payload
      raised := readU32 payload :: s.raised } with hs₀
    obtain ⟨t₁, h₁, c₁, he₁, hpos₁, hc₁, hne₁, hfs₁, hfr₁⟩ :=
      refill_spec s₀ h.streams .send .receive h.distinct.symm hf hf'
    set s₁ : LinkLedgers := { s₀ with
      ledgers := t₁
      handles := Function.update s₀.handles .send h₁
      created := cellRow c₁ :: s₀.created } with hs₁
    have hsend₁ : s₁.handles .send = h₁ := by
      show Function.update s₀.handles .send h₁ .send = h₁
      rw [Function.update_self]
    have hrecv₁ : s₁.handles .receive = s.handles .receive := by
      show Function.update s₀.handles .send h₁ .receive = s₀.handles .receive
      rw [Function.update_of_ne (by decide)]
    obtain ⟨t₂, h₂, c₂, he₂, hpos₂, hc₂, hne₂, hfr₂, hfs₂⟩ :=
      refill_spec s₁ h.streams .receive .send
        (by rw [hsend₁, hrecv₁]; exact hne₁) (by rw [hrecv₁]; exact hfr₁) (by rw [hsend₁]; exact hfs₁)
    dsimp only
    rw [he₁]
    dsimp only
    rw [he₂]
    set s₂ : LinkLedgers := { s₁ with
      ledgers := t₂
      handles := Function.update s₁.handles .receive h₂
      created := cellRow c₂ :: s₁.created } with hs₂
    have hsend₂ : s₂.handles .send = h₁ := by
      show Function.update s₁.handles .receive h₂ .send = h₁
      rw [Function.update_of_ne (by decide), hsend₁]
    have hrecv₂ : s₂.handles .receive = h₂ := by
      show Function.update s₁.handles .receive h₂ .receive = h₂
      rw [Function.update_self]
    have hfunding : s₂.funding = s.funding + maxStreamCells := by
      show (maxControlCells : Int) + ((readU32 payload :: s.raised).length : Nat) * (maxStreamCells : Int) =
        maxControlCells + (s.raised.length : Nat) * (maxStreamCells : Int) + maxStreamCells
      rw [List.length_cons, Int.natCast_succ, Int.add_mul, Int.one_mul]
      omega
    have hsendFunds : s₂.ledgers.Funds (s₂.handles .send) s.ledgerLimit c₁ false := by
      rw [hsend₂]
      exact hsend₁ ▸ hfs₂
    have hrecvFunds : s₂.ledgers.Funds (s₂.handles .receive) s.ledgerLimit c₂ false := by
      rw [hrecv₂]
      exact hfr₂
    have hlimit : ∀ {c l : Int}, c = min (s.ledgerLimit : Int) (l + maxStreamCells) →
        c ≤ s.ledgerLimit ∧ c ≤ l + maxStreamCells := by
      rintro c l rfl
      exact ⟨min_le_left _ _, min_le_right _ _⟩
    refine ⟨s₂, rfl, ⟨h.streams, ?_, fun side => ?_, ?_, ?_, ?_⟩, hlive, fun h => (by cases h),
      fun _ => ⟨rfl, rfl, fun side => ?_⟩⟩
    · rw [hsend₂, hrecv₂]
      exact fun he => hne₂ (hsend₁ ▸ he.symm)
    · have hd : s₂.destroyed = false := hlive
      rw [hfunding, hd]
      cases side with
      | send =>
        refine ⟨c₁, hsendFunds, ?_⟩
        have := (hlimit hc₁).2
        show ((s.charged .send : Nat) : Int) + c₁ ≤ _
        omega
      | receive =>
        refine ⟨c₂, hrecvFunds, ?_⟩
        have := (hlimit hc₂).2
        show ((s.charged .receive : Nat) : Int) + c₂ ≤ _
        omega
    · refine List.Pairwise.cons (fun id hid => ?_) h.sorted
      have := h.frontier id hid
      have := raises_iff hr
      show id < readU32 payload
      omega
    · intro id hid
      show id ≤ readU32 payload
      rcases List.mem_cons.mp hid with rfl | hid
      · exact le_rfl
      · exact (h.frontier id hid).trans (raises_iff hr).le
    · intro row hrow
      rcases List.mem_cons.mp hrow with rfl | hrow
      · exact ⟨c₂, rfl, hpos₂, (hlimit hc₂).1⟩
      · rcases List.mem_cons.mp hrow with rfl | hrow
        · exact ⟨c₁, rfl, hpos₁, (hlimit hc₁).1⟩
        · exact h.created row hrow
    · cases side with
      | send => rw [remaining_eq hsendFunds, remaining_eq hf, hc₁]; rfl
      | receive => rw [remaining_eq hrecvFunds, remaining_eq hf', hc₂]; rfl

theorem handles_ne {s : LinkLedgers} (h : s.handles .send ≠ s.handles .receive) {side side' : Side}
    (hne : side' ≠ side) : s.handles side' ≠ s.handles side := by
  cases side with
  | send =>
    cases side' with
    | send => exact absurd rfl hne
    | receive => exact h.symm
  | receive =>
    cases side' with
    | send => exact h
    | receive => exact absurd rfl hne

/-- A charge takes one cell, or throws if none is left. -/
theorem Funded.charge {s : LinkLedgers} (h : s.Funded) (hlive : s.destroyed = false) (side : Side) :
    (s.remaining side = 0 ∧ ∃ e, s.charge side = (s, .error e)) ∨
      ∃ s', s.charge side = (s', .ok ()) ∧ s'.Funded ∧ s'.destroyed = false ∧
        s'.raised = s.raised ∧ s'.admissionFrontier = s.admissionFrontier ∧
        s'.remaining side = s.remaining side - 1 ∧
        ∀ side', s'.remaining side' ≤ s.remaining side' := by
  obtain ⟨left, hf, hle⟩ := h.funds side
  rw [hlive] at hf
  unfold LinkLedgers.charge
  rcases hf.charge with ⟨hzero, he⟩ | ⟨t, he, hft, hsame⟩
  · rw [he]
    exact .inl ⟨(remaining_eq hf).trans hzero, _, rfl⟩
  · rw [he]
    dsimp only
    set s' : LinkLedgers := { s with
      ledgers := t
      charged := Function.update s.charged side (s.charged side + 1) } with hs'
    have hself : s'.remaining side = left - 1 :=
      remaining_eq (s := s') hft
    refine .inr ⟨s', rfl, ⟨h.streams, h.distinct, fun side' => ?_, h.sorted, h.frontier, h.created⟩,
      hlive, rfl, rfl, by rw [hself, remaining_eq hf], fun side' => ?_⟩
    · by_cases hs : side' = side
      · subst hs
        refine ⟨left - 1, ?_, ?_⟩
        · have hd : s'.destroyed = false := hlive
          rw [hd]
          exact hft
        · show ((Function.update s.charged side' (s.charged side' + 1) side' : Nat) : Int) +
            (left - 1) ≤ s.funding
          rw [Function.update_self]
          omega
      · obtain ⟨left', hf', hle'⟩ := h.funds side'
        refine ⟨left', hf'.congr (hsame _ (handles_ne h.distinct hs)), ?_⟩
        show ((Function.update s.charged side (s.charged side + 1) side' : Nat) : Int) + left' ≤
          s.funding
        rw [Function.update_of_ne hs]
        exact hle'
    · by_cases hs : side' = side
      · subst hs
        rw [hself, remaining_eq hf]
        omega
      · have hother : s'.remaining side' = s.remaining side' := by
          unfold remaining
          show (match t.states[s.handles side']? with | none => 0 | some l => l.remaining.cells) = _
          rw [hsame _ (handles_ne h.distinct hs)]
        exact hother.le

/-- Destroying the link releases both ledgers with what they hold. -/
theorem Funded.destroy {s : LinkLedgers} (h : s.Funded) :
    s.destroy.Funded ∧ s.destroy.raised = s.raised ∧
      ∀ side, s.destroy.remaining side = s.remaining side := by
  unfold LinkLedgers.destroy
  split
  · exact ⟨h, rfl, fun _ => rfl⟩
  · obtain ⟨left, hf, hle⟩ := h.funds .send
    obtain ⟨left', hf', hle'⟩ := h.funds .receive
    obtain ⟨hs₁, ho₁⟩ := hf.release
    have hr₁ := hf'.congr (ho₁ _ h.distinct.symm)
    obtain ⟨hr₂, ho₂⟩ := hr₁.release
    have hs₂ := hs₁.congr (ho₂ _ h.distinct)
    refine ⟨⟨h.streams, h.distinct, fun side => ?_, h.sorted, h.frontier, h.created⟩, rfl,
      fun side => ?_⟩
    · cases side with
      | send => exact ⟨left, hs₂, hle⟩
      | receive => exact ⟨left', hr₂, hle'⟩
    · cases side with
      | send => exact (remaining_eq hs₂).trans (remaining_eq hf).symm
      | receive => exact (remaining_eq hr₂).trans (remaining_eq hf').symm

/-- One event keeps the funding, and only a raised frontier adds to what is left. -/
theorem Funded.step {s : LinkLedgers} (h : s.Funded) (e : LinkEvent) :
    (s.step e).Funded ∧ ((s.step e).raised = s.raised → ∀ side,
      (s.step e).remaining side ≤ s.remaining side) := by
  have hnil : ∀ id : Nat, ¬id :: s.raised = s.raised := fun id he => by
    have := congrArg List.length he
    rw [List.length_cons] at this
    omega
  unfold LinkLedgers.step
  cases hd : s.destroyed with
  | true =>
    rw [if_pos rfl]
    exact ⟨h, fun _ _ => le_rfl⟩
  | false =>
    rw [if_neg Bool.false_ne_true]
    cases e with
    | sealed payload =>
      dsimp only
      obtain ⟨s₁, he, h₁, hd₁, hkeep, hraise⟩ := h.fund hd payload
      unfold sealCell
      rw [he]
      dsimp only
      rcases h₁.charge hd₁ .send with ⟨-, e, hc⟩ | ⟨s₂, hc, h₂, -, hr₂, -, -, hrem₂⟩
      · rw [hc]
        obtain ⟨h₂, hr₂, hrem₂⟩ := h₁.destroy
        refine ⟨h₂, fun hsame side => ?_⟩
        cases hr : s.raises payload with
        | false => exact (hrem₂ side).le.trans (hkeep hr ▸ le_rfl)
        | true => exact absurd ((hraise hr).1.symm.trans (hr₂.symm.trans hsame)) (hnil _)
      · rw [hc]
        refine ⟨h₂, fun hsame side => ?_⟩
        cases hr : s.raises payload with
        | false => exact (hrem₂ side).trans (hkeep hr ▸ le_rfl)
        | true => exact absurd ((hraise hr).1.symm.trans (hr₂.symm.trans hsame)) (hnil _)
    | cell =>
      dsimp only
      rcases h.charge hd .receive with ⟨-, e, hc⟩ | ⟨s₂, hc, h₂, -, -, -, -, hrem₂⟩
      · rw [hc]
        obtain ⟨h₂, -, hrem₂⟩ := h.destroy
        exact ⟨h₂, fun _ side => (hrem₂ side).le⟩
      · rw [hc]
        exact ⟨h₂, fun _ => hrem₂⟩
    | payload payload =>
      dsimp only
      obtain ⟨s₁, he, h₁, -, hkeep, hraise⟩ := h.fund hd payload
      rw [he]
      refine ⟨h₁, fun hsame side => ?_⟩
      cases hr : s.raises payload with
      | false => exact hkeep hr ▸ le_rfl
      | true => exact absurd ((hraise hr).1.symm.trans hsame) (hnil _)
    | destroy =>
      obtain ⟨h₂, -, hrem₂⟩ := h.destroy
      exact ⟨h₂, fun _ side => (hrem₂ side).le⟩

/-- A link with a cell left survives the next one. -/
theorem Funded.arrives {s : LinkLedgers} (h : s.Funded) (hlive : s.destroyed = false)
    (hleft : s.remaining .receive ≠ 0) (payload : List UInt8) :
    ((s.step .cell).step (.payload payload)).destroyed = false := by
  rcases h.charge hlive .receive with ⟨hzero, -⟩ | ⟨s₁, hcharge, h₁, hlive₁, -⟩
  · exact absurd hzero hleft
  · have hcell : s.step .cell = s₁ := by
      unfold LinkLedgers.step
      rw [if_neg (by rw [hlive]; exact Bool.false_ne_true), hcharge]
      rfl
    obtain ⟨s₂, hfund, -, hlive₂, -⟩ := h₁.fund hlive₁ payload
    rw [hcell]
    unfold LinkLedgers.step
    rw [if_neg (by rw [hlive₁]; exact Bool.false_ne_true)]
    dsimp only
    rw [hfund]
    exact hlive₂

theorem Funded.run {s : LinkLedgers} (h : s.Funded) (events : List LinkEvent) :
    (s.run events).Funded := by
  unfold LinkLedgers.run
  induction events generalizing s with
  | nil => exact h
  | cons e events ih => exact ih (h.step e).1

/-- In every run of a multiplexed link, `k` raises of the admission frontier pay
for at most the control cells and `k` streams' cells in each direction. What is
left stays within the limit, every allocation fits the ledger, and no event that
leaves the frontier adds to what is left. -/
theorem funding_bounded (memory : MemoryTree) (events : List LinkEvent) :
    let s := (new maxRouteStreams memory).run events
    (∀ side, s.charged side ≤ maxControlCells + s.raised.length * maxStreamCells) ∧
      s.raised.Nodup ∧
      (∀ side, 0 ≤ s.remaining side ∧ s.remaining side ≤ s.ledgerLimit) ∧
      (s.ledgerLimit : Int) ≤ maxU32 ∧
      (∀ row ∈ s.created, row.valid = true ∧ row.cells ≤ s.ledgerLimit ∧ row.commands = row.cells ∧
        row.bytes = row.cells * cellSize ∧ row.bytes < 2 ^ 53) ∧
      ∀ e, (s.step e).raised = s.raised → ∀ side, (s.step e).remaining side ≤ s.remaining side := by
  intro s
  have h : s.Funded := (funded_new memory).run events
  have hlimit := h.ledgerLimit_eq
  refine ⟨fun side => ?_, ?_, fun side => ?_, hlimit ▸ ledgerLimit_fits.1, fun row hrow => ?_,
    fun e => (h.step e).2⟩
  · obtain ⟨left, hf, hle⟩ := h.funds side
    have := hf.nonneg
    unfold funding at hle
    exact_mod_cast (show (s.charged side : Int) ≤ maxControlCells + s.raised.length * maxStreamCells by
      omega)
  · exact h.sorted.imp fun hgt => Nat.ne_of_gt hgt
  · obtain ⟨left, hf, -⟩ := h.funds side
    rw [remaining_eq hf]
    exact ⟨hf.nonneg, hf.le_limit⟩
  · obtain ⟨cells, rfl, hpos, hle⟩ := h.created row hrow
    refine ⟨cellRow_valid hpos (hlimit ▸ hle), hle, rfl, rfl, ?_⟩
    show cells * cellSize < 2 ^ 53
    have h₁ := ledgerLimit_fits.2
    rw [← hlimit] at h₁
    have h₂ : cells * cellSize ≤ (s.ledgerLimit * cellSize : Nat) := by
      rw [Int.natCast_mul]
      exact Int.mul_le_mul_of_nonneg_right hle (Int.natCast_nonneg _)
    omega

end LinkLedgers

end HyperDht.Private
