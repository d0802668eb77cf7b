import HyperDht.Lib.Double
import HyperDht.Private.Logical
import HyperDht.Private.MemoryPools

/-!
# The budget of a route

`computePeerRouteBudget` turns the stream count of a route and the frames of its applications
into the cells, bytes and commands of each adjacency. It computes in double precision and
compares with `maxU32` after the sums. `exactBudget` has the same numbers over the naturals;
`budget_exact` says that the function fails exactly where one of them is too large, and
returns them otherwise.
-/

namespace HyperDht.Private

/-! ## Data -/

structure Application where
  forwardFrames : Int
  reverseFrames : Int
  forwardBytes : Int
  reverseBytes : Int
  forwardWindow : Int
  reverseWindow : Int
  deriving DecidableEq, Repr

structure RouteOptions where
  purpose : Int
  maxStreams : Int
  applications : List Application
  deriving DecidableEq, Repr

/-- The amounts of one direction; bytes are a BigInt. -/
structure BudgetRow (α : Type) where
  cells : α
  bytes : Nat
  commands : α
  deriving DecidableEq, Repr

structure Adjacency (α : Type) where
  forward : BudgetRow α
  reverse : BudgetRow α
  deriving DecidableEq, Repr

structure RouteBudget (α : Type) where
  reliablePackets : α
  adjacencies : List (Adjacency α)
  directDiscovery : List (Adjacency α)
  purpose : Adjacency α
  totalCells : α
  totalBytes : Nat
  deriving DecidableEq, Repr

def BudgetRow.map {α β : Type} (f : α → β) (r : BudgetRow α) : BudgetRow β :=
  ⟨f r.cells, r.bytes, f r.commands⟩

def Adjacency.map {α β : Type} (f : α → β) (a : Adjacency α) : Adjacency β :=
  ⟨a.forward.map f, a.reverse.map f⟩

def RouteBudget.map {α β : Type} (f : α → β) (b : RouteBudget α) : RouteBudget β :=
  ⟨f b.reliablePackets, b.adjacencies.map (·.map f), b.directDiscovery.map (·.map f),
    b.purpose.map f, f b.totalCells, b.totalBytes⟩

/-- The accumulators of the loop over `applications`. -/
structure FrameSums (α : Type) where
  sumQf : α
  sumQr : α
  sumGsr : α
  sumGsf : α
  appFinF : α
  appFinR : α

structure SetupAttempt (α : Type) where
  Sif : α
  Sir : α
  fCmds : α
  rCmds : α

/-! ## The function -/

/-- The sums with an application that passed its checks. -/
def Application.addTo (app : Application) (s : FrameSums Double) : FrameSums Double :=
  let Qf := Double.ofNat app.forwardFrames.toNat
  let Qr := Double.ofNat app.reverseFrames.toNat
  let Gsf := 1 + (Qf - Double.ofNat app.forwardWindow.toNat)
  let Gsr := 1 + (Qr - Double.ofNat app.reverseWindow.toNat)
  { sumQf := s.sumQf + Qf
    sumQr := s.sumQr + Qr
    sumGsf := s.sumGsf + Gsf
    sumGsr := s.sumGsr + Gsr
    appFinF := s.appFinF + 1
    appFinR := s.appFinR + 1 }

/-- A turn of the loop over `applications`. -/
def addApplication (s : FrameSums Double) (app : Application) :
    Except LedgerError (FrameSums Double) :=
  if checkU32 app.forwardFrames = false ∨ checkU32 app.reverseFrames = false ∨
      ¬(0 ≤ app.forwardBytes ∧ app.forwardBytes ≤ maxU64) ∨
      ¬(0 ≤ app.reverseBytes ∧ app.reverseBytes ≤ maxU64) ∨
      checkU32 app.forwardWindow = false ∨ checkU32 app.reverseWindow = false then
    .error .invalidRoute
  else
    let Qf := Double.ofNat app.forwardFrames.toNat
    let Qr := Double.ofNat app.reverseFrames.toNat
    let Bf := app.forwardBytes
    let Br := app.reverseBytes
    let Wf := Double.ofNat app.forwardWindow.toNat
    let Wr := Double.ofNat app.reverseWindow.toNat
    if Qf < 1 ∨ Qr < 1 then .error .invalidRoute
    else if Bf < 59 ∨ Bf > (977 * Qf).val then .error .invalidRoute
    else if Br < 59 ∨ Br > (977 * Qr).val then .error .invalidRoute
    else if Wf < 1 ∨ Wf > min 24 Qf then .error .invalidRoute
    else if Wr < 1 ∨ Wr > min 24 Qr then .error .invalidRoute
    else .ok (app.addTo s)

/-- `Pf`, for the stream count `m`. -/
def purposeForward (p : Int) (m : Double) : Double :=
  if p = 1 then 13 * m else if p = 2 then 5 * m else 3 + 4 * (m - 1)

/-- `Pr`. -/
def purposeReverse (p : Int) (m : Double) : Double :=
  if p = 1 then 13 * m else if p = 2 then 5 * m else 1 + 5 * (m - 1)

def terminalCf (p : Int) (m : Double) : Double :=
  if p = 1 then 3 * m else if p = 2 then 2 * m else 2

def sourceCommands (p : Int) (m : Double) : Double := if p = 3 then 2 * (m - 1) else 0

def setupAttempts (p : Int) (m : Double) : List (SetupAttempt Double) :=
  let a0fCmds := 1 + sourceCommands p m + 0 + m + 2
  let a0rCmds := 2 + 0 + 0 + m + 2
  let a1fCmds := 1 + 0 + 0 + m + 2
  let a1rCmds := 2 + 0 + 0 + m + 2
  let a2fCmds := 1 + 0 + 0 + m + 2
  let a2rCmds := 1 + terminalCf p m + 1 + m + 2
  [⟨40, 56, a0fCmds, a0rCmds⟩, ⟨24, 40, a1fCmds, a1rCmds⟩, ⟨8, 16, a2fCmds, a2rCmds⟩]

/-- A row with `BigInt(cells) * BigInt(CELL_SIZE)` bytes. -/
def budgetRow (cells commands : Double) : BudgetRow Double :=
  ⟨cells, cells.val * cellSize, commands⟩

def exceedsU32 (x : Double) : Prop := Double.ofNat maxU32.toNat < x

instance (x : Double) : Decidable (exceedsU32 x) := inferInstanceAs (Decidable (_ < x))

def SetupAttempt.adjacency (m N : Double) (attempt : SetupAttempt Double) : Adjacency Double :=
  let fCells := attempt.Sif + 8 * N + 16 * m + 34
  let rCells := attempt.Sir + 8 * N + 16 * m + 34
  ⟨budgetRow fCells attempt.fCmds, budgetRow rCells attempt.rCmds⟩

/-- A turn of the loop over `setupAttempts`: `adjacencies` and `totalAdjacencyCells`. -/
def addAdjacency (m N : Double) (acc : List (Adjacency Double) × Double)
    (attempt : SetupAttempt Double) : Except LedgerError (List (Adjacency Double) × Double) :=
  let a := attempt.adjacency m N
  if exceedsU32 a.forward.cells ∨ exceedsU32 a.reverse.cells then .error .invalidRoute
  else if exceedsU32 a.forward.commands ∨ exceedsU32 a.reverse.commands then .error .invalidRoute
  else .ok (acc.1 ++ [a], acc.2 + (a.forward.cells + a.reverse.cells))

def directDiscovery : List (Adjacency Double) :=
  List.replicate 3 ⟨⟨24, 28800, 0⟩, ⟨24, 28800, 1⟩⟩

/-- What `computePeerRouteBudget` does once it has `N`. -/
def budgetOfPackets (p : Int) (m N : Double) : Except LedgerError (RouteBudget Double) := do
  let (adjacencies, totalAdjacencyCells) ←
    (setupAttempts p m).foldlM (addAdjacency m N) ([], 0)
  let totalCells := totalAdjacencyCells + 144
  if exceedsU32 totalCells then .error .invalidRoute
  else
    let purposeCells := 8 * N + 16 * m + 24
    if exceedsU32 purposeCells then .error .invalidRoute
    else
      .ok {
        reliablePackets := N
        adjacencies
        directDiscovery
        purpose := {
          forward := budgetRow purposeCells (sourceCommands p m + m + 1)
          reverse := budgetRow purposeCells (terminalCf p m + 1 + m + 1) }
        totalCells
        totalBytes := totalCells.val * cellSize }

def computePeerRouteBudget (options : RouteOptions) : Except LedgerError (RouteBudget Double) :=
  if checkU32 options.purpose = false ∨ checkU32 options.maxStreams = false then
    .error .invalidRoute
  else
    let p := options.purpose
    let m := Double.ofNat options.maxStreams.toNat
    if p < 1 ∨ p > 3 ∨ m < 1 then .error .invalidRoute
    else
      let expectedAppCount := if p = 3 then m - 1 else m
      if options.applications.length ≠ expectedAppCount.val then .error .invalidRoute
      else do
        let s ← options.applications.foldlM addApplication ⟨0, 0, 0, 0, 0, 0⟩
        let F := purposeForward p m + s.sumQf + s.sumGsr + s.appFinF
        let R := purposeReverse p m + s.sumQr + s.sumGsf + s.appFinR
        let N := F + R
        budgetOfPackets p m N

/-! ## The exact budget -/

namespace Application

/-- The field checks of an application. -/
def Valid (app : Application) : Prop :=
  (1 ≤ app.forwardFrames ∧ app.forwardFrames ≤ maxU32) ∧
  (1 ≤ app.reverseFrames ∧ app.reverseFrames ≤ maxU32) ∧
  (59 ≤ app.forwardBytes ∧ app.forwardBytes ≤ 977 * app.forwardFrames) ∧
  (59 ≤ app.reverseBytes ∧ app.reverseBytes ≤ 977 * app.reverseFrames) ∧
  (1 ≤ app.forwardWindow ∧ app.forwardWindow ≤ min 24 app.forwardFrames) ∧
  (1 ≤ app.reverseWindow ∧ app.reverseWindow ≤ min 24 app.reverseFrames)

instance (app : Application) : Decidable app.Valid := inferInstanceAs (Decidable (_ ∧ _))

def Qf (app : Application) : Nat := app.forwardFrames.toNat
def Qr (app : Application) : Nat := app.reverseFrames.toNat
/-- The window updates that the forward frames need. -/
def Gsf (app : Application) : Nat := 1 + (app.forwardFrames - app.forwardWindow).toNat
def Gsr (app : Application) : Nat := 1 + (app.reverseFrames - app.reverseWindow).toNat

/-- Frames, window updates and the end of each direction. -/
def packets (app : Application) : Nat := app.Qf + app.Qr + app.Gsf + app.Gsr + 2

end Application

namespace RouteOptions

/-- The field checks of the options. -/
def Valid (o : RouteOptions) : Prop :=
  (1 ≤ o.purpose ∧ o.purpose ≤ 3) ∧ (1 ≤ o.maxStreams ∧ o.maxStreams ≤ maxU32) ∧
  (o.applications.length : Int) = (if o.purpose = 3 then o.maxStreams - 1 else o.maxStreams) ∧
  ∀ app ∈ o.applications, app.Valid

instance (o : RouteOptions) : Decidable o.Valid := inferInstanceAs (Decidable (_ ∧ _))

variable (o : RouteOptions)

def streams : Nat := o.maxStreams.toNat

/-- The packets of both directions that the purpose itself needs. -/
def purposePackets : Nat :=
  if o.purpose = 1 then 26 * o.streams
  else if o.purpose = 2 then 10 * o.streams
  else 4 + 9 * (o.streams - 1)

def packets : Nat := o.purposePackets + (o.applications.map (·.packets)).sum

/-- The cells of a direction, `setup` of them for its setup attempt. -/
def cells (setup : Nat) : Nat := setup + 8 * o.packets + 16 * o.streams + 34

def purposeCells : Nat := 8 * o.packets + 16 * o.streams + 24

def sourceAllocations : Nat := if o.purpose = 3 then 2 * (o.streams - 1) else 0

def terminalAllocations : Nat :=
  if o.purpose = 1 then 3 * o.streams else if o.purpose = 2 then 2 * o.streams else 2

end RouteOptions

def exactRow (cells commands : Nat) : BudgetRow Nat := ⟨cells, cells * cellSize, commands⟩

def exactBudget (o : RouteOptions) : RouteBudget Nat where
  reliablePackets := o.packets
  adjacencies := [
    ⟨exactRow (o.cells 40) (o.sourceAllocations + o.streams + 3),
      exactRow (o.cells 56) (o.streams + 4)⟩,
    ⟨exactRow (o.cells 24) (o.streams + 3), exactRow (o.cells 40) (o.streams + 4)⟩,
    ⟨exactRow (o.cells 8) (o.streams + 3),
      exactRow (o.cells 16) (o.terminalAllocations + o.streams + 4)⟩]
  directDiscovery := List.replicate 3 ⟨exactRow 24 0, exactRow 24 1⟩
  purpose :=
    ⟨exactRow o.purposeCells (o.sourceAllocations + o.streams + 1),
      exactRow o.purposeCells (o.terminalAllocations + o.streams + 2)⟩
  totalCells := 48 * o.packets + 96 * o.streams + 532
  totalBytes := (48 * o.packets + 96 * o.streams + 532) * cellSize

def BudgetRow.Fits (r : BudgetRow Nat) : Prop := r.cells ≤ maxU32 ∧ r.commands ≤ maxU32

def Adjacency.Fits (a : Adjacency Nat) : Prop := a.forward.Fits ∧ a.reverse.Fits

namespace RouteBudget

/-- All amounts that the function answers for are `u32`. -/
def Fits (b : RouteBudget Nat) : Prop :=
  (∀ a ∈ b.adjacencies, a.Fits) ∧ b.purpose.Fits ∧ b.totalCells ≤ maxU32

instance (r : BudgetRow Nat) : Decidable r.Fits := inferInstanceAs (Decidable (_ ∧ _))
instance (a : Adjacency Nat) : Decidable a.Fits := inferInstanceAs (Decidable (_ ∧ _))
instance (b : RouteBudget Nat) : Decidable b.Fits := inferInstanceAs (Decidable (_ ∧ _))

/-- What holds between the numbers of a budget. -/
structure Consistent (b : RouteBudget Nat) : Prop where
  rows : ∀ a ∈ b.purpose :: b.adjacencies ++ b.directDiscovery,
    a.forward.bytes = a.forward.cells * cellSize ∧ a.reverse.bytes = a.reverse.cells * cellSize
  bytes : b.totalBytes = b.totalCells * cellSize
  total : b.totalCells =
    ((b.adjacencies ++ b.directDiscovery).map fun a => a.forward.cells + a.reverse.cells).sum
  purpose : ∀ a ∈ b.adjacencies,
    b.purpose.forward.cells ≤ a.forward.cells ∧ b.purpose.reverse.cells ≤ a.reverse.cells

end RouteBudget

theorem exactBudget_consistent (o : RouteOptions) : (exactBudget o).Consistent where
  rows := by
    intro a ha
    simp only [exactBudget, List.cons_append, List.nil_append, List.mem_cons,
      List.mem_replicate] at ha
    rcases ha with rfl | rfl | rfl | rfl | ⟨-, rfl⟩ <;> exact ⟨rfl, rfl⟩
  bytes := rfl
  total := by
    simp only [exactBudget, exactRow, RouteOptions.cells, List.cons_append, List.nil_append,
      List.map_cons, List.map_replicate, List.sum_cons, List.sum_replicate]
    ring
  purpose := by
    intro a ha
    simp only [exactBudget, List.mem_cons, List.not_mem_nil, or_false] at ha
    have hcells : ∀ setup, o.purposeCells ≤ o.cells setup := by
      intro setup
      unfold RouteOptions.purposeCells RouteOptions.cells
      omega
    rcases ha with rfl | rfl | rfl <;> exact ⟨hcells _, hcells _⟩

/-! ## Applications -/

/-- The sums stand for those of `apps`. -/
structure FrameSums.Near (s : FrameSums Double) (apps : List Application) : Prop where
  sumQf : s.sumQf.Near (apps.map (·.Qf)).sum
  sumQr : s.sumQr.Near (apps.map (·.Qr)).sum
  sumGsr : s.sumGsr.Near (apps.map (·.Gsr)).sum
  sumGsf : s.sumGsf.Near (apps.map (·.Gsf)).sum
  appFinF : s.appFinF.Near apps.length
  appFinR : s.appFinR.Near apps.length

theorem val_u32 {v : Int} (h : v ≤ maxU32) : (Double.ofNat v.toNat).val = v.toNat :=
  Double.val_ofNat (by have : maxU32 = 4294967295 := rfl; omega)

/-- The largest byte count of `977` a frame is exact. -/
theorem val_frameBytes {v : Int} (h : v ≤ maxU32) :
    (977 * Double.ofNat v.toNat).val = 977 * v.toNat := by
  have hmax : maxU32 = 4294967295 := rfl
  have hlt : 977 * v.toNat < 2 ^ 53 := by omega
  exact (Double.Near.mul (Double.near_ofNat v.toNat) (by decide)).val hlt

theorem addApplication_eq (s : FrameSums Double) (app : Application) :
    addApplication s app =
      if app.Valid then .ok (app.addTo s) else .error .invalidRoute := by
  have hmax : maxU32 = 4294967295 := rfl
  have hmax64 : maxU64 = 18446744073709551615 := rfl
  unfold addApplication
  split
  · next hrange =>
    rw [if_neg]
    simp only [checkU32, Bool.and_eq_false_iff, decide_eq_false_iff_not] at hrange
    unfold Application.Valid
    omega
  · next hrange =>
    simp only [checkU32, Bool.and_eq_false_iff, decide_eq_false_iff_not, not_or, not_not] at hrange
    obtain ⟨⟨-, hQf⟩, ⟨-, hQr⟩, -, -, ⟨-, hWf⟩, -, hWr⟩ := hrange
    simp only [Double.lt_def, gt_iff_lt, Double.val_min, val_u32 hQf, val_u32 hQr, val_u32 hWf,
      val_u32 hWr, val_frameBytes hQf, val_frameBytes hQr, Double.val_literal (n := 1) (by decide),
      Double.val_literal (n := 24) (by decide)]
    by_cases hvalid : app.Valid
    · rw [if_pos hvalid]
      unfold Application.Valid at hvalid
      rw [if_neg (by omega), if_neg (by omega), if_neg (by omega), if_neg (by omega),
        if_neg (by omega)]
    · rw [if_neg hvalid]
      unfold Application.Valid at hvalid
      split_ifs
      iterate 5 rfl
      exfalso
      omega

theorem FrameSums.Near.add {s : FrameSums Double} {apps : List Application} {app : Application}
    (h : s.Near apps) (hvalid : app.Valid) : (app.addTo s).Near (apps ++ [app]) := by
  unfold Application.Valid at hvalid
  obtain ⟨⟨-, hQf⟩, ⟨-, hQr⟩, -, -, ⟨hWf, hlef⟩, hWr, hler⟩ := hvalid
  have hGsf : (1 + (Double.ofNat app.forwardFrames.toNat -
      Double.ofNat app.forwardWindow.toNat)).Near app.Gsf := by
    have hsub := Double.near_sub (val_u32 hQf) (val_u32 (v := app.forwardWindow) (by omega))
    have heq : app.Gsf = 1 + (app.forwardFrames.toNat - app.forwardWindow.toNat) := by
      unfold Application.Gsf
      omega
    rw [heq]
    exact (Double.near_literal 1).add hsub
  have hGsr : (1 + (Double.ofNat app.reverseFrames.toNat -
      Double.ofNat app.reverseWindow.toNat)).Near app.Gsr := by
    have hsub := Double.near_sub (val_u32 hQr) (val_u32 (v := app.reverseWindow) (by omega))
    have heq : app.Gsr = 1 + (app.reverseFrames.toNat - app.reverseWindow.toNat) := by
      unfold Application.Gsr
      omega
    rw [heq]
    exact (Double.near_literal 1).add hsub
  have hsum : ∀ f : Application → Nat,
      ((apps ++ [app]).map f).sum = (apps.map f).sum + f app := by
    intro f
    rw [List.map_append, List.sum_append, List.map_singleton, List.sum_singleton]
  constructor
  case sumQf => exact hsum _ ▸ h.sumQf.add (Double.near_ofNat _)
  case sumQr => exact hsum _ ▸ h.sumQr.add (Double.near_ofNat _)
  case sumGsr => exact hsum _ ▸ h.sumGsr.add hGsr
  case sumGsf => exact hsum _ ▸ h.sumGsf.add hGsf
  case appFinF =>
    rw [List.length_append]
    exact h.appFinF.add (Double.near_literal 1)
  case appFinR =>
    rw [List.length_append]
    exact h.appFinR.add (Double.near_literal 1)

theorem FrameSums.Near.foldl {apps done : List Application} {s : FrameSums Double}
    (h : s.Near done) (hvalid : ∀ app ∈ apps, app.Valid) :
    (apps.foldl (fun s app => app.addTo s) s).Near (done ++ apps) := by
  induction apps generalizing s done with
  | nil => rwa [List.append_nil]
  | cons app apps ih =>
    rw [List.foldl_cons, List.append_cons]
    exact ih (h.add (hvalid app List.mem_cons_self))
      fun a ha => hvalid a (List.mem_cons_of_mem _ ha)

theorem FrameSums.near_zero : FrameSums.Near ⟨0, 0, 0, 0, 0, 0⟩ [] :=
  ⟨Double.near_literal 0, Double.near_literal 0, Double.near_literal 0, Double.near_literal 0,
    Double.near_literal 0, Double.near_literal 0⟩

/-- A loop whose turns check an element and then cannot fail. -/
theorem foldlM_guard {α β ε : Type} {f : β → α → Except ε β} {g : β → α → β} {e : ε}
    {P : α → Prop} [DecidablePred P]
    (h : ∀ b a, f b a = if P a then .ok (g b a) else .error e) (l : List α) (b : β) :
    l.foldlM f b = if ∀ a ∈ l, P a then .ok (l.foldl g b) else .error e := by
  induction l generalizing b with
  | nil => rfl
  | cons a l ih =>
    rw [List.foldlM_cons, h]
    by_cases ha : P a
    · rw [if_pos ha]
      show l.foldlM f (g b a) = _
      rw [ih]
      by_cases hl : ∀ a ∈ l, P a
      · rw [if_pos hl, if_pos (List.forall_mem_cons.mpr ⟨ha, hl⟩), List.foldl_cons]
      · rw [if_neg hl, if_neg fun hall => hl (List.forall_mem_cons.mp hall).2]
    · rw [if_neg ha, if_neg fun hall => ha (List.forall_mem_cons.mp hall).1]
      rfl

theorem sum_packets (apps : List Application) :
    (apps.map (·.packets)).sum =
      (apps.map (·.Qf)).sum + (apps.map (·.Qr)).sum + (apps.map (·.Gsf)).sum +
        (apps.map (·.Gsr)).sum + 2 * apps.length := by
  induction apps with
  | nil => rfl
  | cons app apps ih =>
    rw [List.map_cons, List.sum_cons, ih]
    simp only [List.map_cons, List.sum_cons, List.length_cons]
    have hpackets : app.packets = app.Qf + app.Qr + app.Gsf + app.Gsr + 2 := rfl
    omega

/-! ## Rows -/

/-- A computed row stands for a row of the exact budget. -/
structure BudgetRow.Near (r : BudgetRow Double) (t : BudgetRow Nat) : Prop where
  cells : r.cells.Near t.cells
  commands : r.commands.Near t.commands
  computed : r.bytes = r.cells.val * cellSize
  bytes : t.bytes = t.cells * cellSize

theorem exceedsU32_iff {x : Double} {n : Nat} (h : x.Near n) :
    exceedsU32 x ↔ ¬(n : Int) ≤ maxU32 := by
  have hmax : maxU32.toNat = 4294967295 := rfl
  have hmax' : maxU32 = 4294967295 := rfl
  rw [exceedsU32, h.lt_iff (by omega)]
  omega

theorem val_eq {x : Double} {n : Nat} (h : x.Near n) (hn : n ≤ maxU32) : x.val = n :=
  h.val (by have : maxU32 = 4294967295 := rfl; omega)

theorem budgetRow_near {x y : Double} {m n : Nat} (hx : x.Near m) (hy : y.Near n) :
    (budgetRow x y).Near (exactRow m n) := ⟨hx, hy, rfl, rfl⟩

theorem BudgetRow.Near.map_eq {r : BudgetRow Double} {t : BudgetRow Nat} (h : r.Near t)
    (hfits : t.Fits) : r.map Double.val = t := by
  have hcells := val_eq h.cells hfits.1
  have hcommands := val_eq h.commands hfits.2
  have hbytes : r.bytes = t.bytes := by rw [h.computed, h.bytes, hcells]
  unfold BudgetRow.map
  rw [hcells, hcommands, hbytes]

structure Adjacency.Near (a : Adjacency Double) (b : Adjacency Nat) : Prop where
  forward : a.forward.Near b.forward
  reverse : a.reverse.Near b.reverse

theorem Adjacency.Near.map_eq {a : Adjacency Double} {b : Adjacency Nat} (h : a.Near b)
    (hfits : b.Fits) : a.map Double.val = b := by
  unfold Adjacency.map
  rw [h.forward.map_eq hfits.1, h.reverse.map_eq hfits.2]

section Adjacencies

variable {m N : Double} {attempts : List (SetupAttempt Double)} {exact : List (Adjacency Nat)}

theorem Adjacency.Near.exceeds_iff {a : Adjacency Double} {b : Adjacency Nat} (h : a.Near b) :
    (¬(exceedsU32 a.forward.cells ∨ exceedsU32 a.reverse.cells) ∧
      ¬(exceedsU32 a.forward.commands ∨ exceedsU32 a.reverse.commands)) ↔ b.Fits := by
  rw [exceedsU32_iff h.forward.cells, exceedsU32_iff h.reverse.cells,
    exceedsU32_iff h.forward.commands, exceedsU32_iff h.reverse.commands]
  unfold Adjacency.Fits BudgetRow.Fits
  tauto

theorem addAdjacency_eq (acc : List (Adjacency Double) × Double) (a : SetupAttempt Double) :
    addAdjacency m N acc a =
      if ¬(exceedsU32 (a.adjacency m N).forward.cells ∨
            exceedsU32 (a.adjacency m N).reverse.cells) ∧
          ¬(exceedsU32 (a.adjacency m N).forward.commands ∨
            exceedsU32 (a.adjacency m N).reverse.commands) then
        .ok (acc.1 ++ [a.adjacency m N],
          acc.2 + ((a.adjacency m N).forward.cells + (a.adjacency m N).reverse.cells))
      else .error .invalidRoute := by
  unfold addAdjacency
  dsimp only
  generalize a.adjacency m N = b
  by_cases hcells : exceedsU32 b.forward.cells ∨ exceedsU32 b.reverse.cells
  · rw [if_pos hcells, if_neg fun h => h.1 hcells]
  · rw [if_neg hcells]
    by_cases hcommands : exceedsU32 b.forward.commands ∨ exceedsU32 b.reverse.commands
    · rw [if_pos hcommands, if_neg fun h => h.2 hcommands]
    · rw [if_neg hcommands, if_pos ⟨hcells, hcommands⟩]

/-- The loop over the attempts, where every adjacency fits. -/
theorem foldl_adjacencies
    (h : List.Forall₂ (fun a b => (a.adjacency m N).Near b) attempts exact)
    {acc : List (Adjacency Double) × Double} {n : Nat} (hacc : acc.2.Near n) :
    let r := attempts.foldl (fun acc a => (acc.1 ++ [a.adjacency m N],
      acc.2 + ((a.adjacency m N).forward.cells + (a.adjacency m N).reverse.cells))) acc
    r.1 = acc.1 ++ attempts.map (·.adjacency m N) ∧
      r.2.Near (n + (exact.map fun b => b.forward.cells + b.reverse.cells).sum) := by
  induction h generalizing acc n with
  | nil => exact ⟨(List.append_nil _).symm, hacc⟩
  | @cons a b attempts exact hab _ ih =>
    have hnext := hacc.add (hab.forward.cells.add hab.reverse.cells)
    obtain ⟨hlist, htotal⟩ := @ih (acc.1 ++ [a.adjacency m N], _) _ hnext
    refine ⟨?_, ?_⟩
    · rw [List.foldl_cons, hlist, List.map_cons, List.append_assoc, List.singleton_append]
    · rw [List.foldl_cons, List.map_cons, List.sum_cons, ← Nat.add_assoc]
      exact htotal

end Adjacencies

/-! ## Packets and attempts -/

section Numbers

variable {o : RouteOptions}

/-- The stream count as the function reads it. -/
abbrev RouteOptions.m (o : RouteOptions) : Double := Double.ofNat o.maxStreams.toNat

theorem near_m (o : RouteOptions) : o.m.Near o.streams := Double.near_ofNat _

theorem near_pred (hm : o.maxStreams ≤ maxU32) : (o.m - 1).Near (o.streams - 1) :=
  Double.near_sub (val_u32 hm) (Double.val_literal (by decide))

theorem near_purpose (hm : o.maxStreams ≤ maxU32) : ∃ a b,
    (purposeForward o.purpose o.m).Near a ∧ (purposeReverse o.purpose o.m).Near b ∧
      a + b = o.purposePackets := by
  unfold purposeForward purposeReverse RouteOptions.purposePackets
  split
  · refine ⟨13 * o.streams, 13 * o.streams, (near_m o).mul (by decide),
      (near_m o).mul (by decide), ?_⟩
    omega
  · split
    · refine ⟨5 * o.streams, 5 * o.streams, (near_m o).mul (by decide),
        (near_m o).mul (by decide), ?_⟩
      omega
    · refine ⟨3 + 4 * (o.streams - 1), 1 + 5 * (o.streams - 1),
        (Double.near_literal 3).add ((near_pred hm).mul (by decide)),
        (Double.near_literal 1).add ((near_pred hm).mul (by decide)), ?_⟩
      omega

theorem near_packets (hm : o.maxStreams ≤ maxU32) {s : FrameSums Double}
    (h : s.Near o.applications) :
    (purposeForward o.purpose o.m + s.sumQf + s.sumGsr + s.appFinF +
      (purposeReverse o.purpose o.m + s.sumQr + s.sumGsf + s.appFinR)).Near o.packets := by
  obtain ⟨a, b, hPf, hPr, hsum⟩ := near_purpose hm
  have hN := (((hPf.add h.sumQf).add h.sumGsr).add h.appFinF).add
    (((hPr.add h.sumQr).add h.sumGsf).add h.appFinR)
  have hpackets := sum_packets o.applications
  have heq : o.packets = o.purposePackets + (o.applications.map (·.packets)).sum := rfl
  convert hN using 1
  omega

theorem near_sourceCommands (hm : o.maxStreams ≤ maxU32) :
    (sourceCommands o.purpose o.m).Near o.sourceAllocations := by
  unfold sourceCommands RouteOptions.sourceAllocations
  split
  · exact (near_pred hm).mul (by decide)
  · exact Double.near_literal 0

theorem near_terminalCf : (terminalCf o.purpose o.m).Near o.terminalAllocations := by
  unfold terminalCf RouteOptions.terminalAllocations
  split
  · exact (near_m o).mul (by decide)
  · split
    · exact (near_m o).mul (by decide)
    · exact Double.near_literal 2

variable {N : Double}

theorem near_cells (hN : N.Near o.packets) {S : Double} {setup : Nat} (hS : S.Near setup) :
    (S + 8 * N + 16 * o.m + 34).Near (o.cells setup) :=
  ((hS.add (hN.mul (by decide))).add ((near_m o).mul (by decide))).add
    (Double.near_literal 34)

theorem near_purposeCells (hN : N.Near o.packets) :
    (8 * N + 16 * o.m + 24).Near o.purposeCells :=
  ((hN.mul (by decide)).add ((near_m o).mul (by decide))).add
    (Double.near_literal 24)

theorem near_adjacencies (hm : o.maxStreams ≤ maxU32) (hN : N.Near o.packets) :
    List.Forall₂ (fun a b => (a.adjacency o.m N).Near b) (setupAttempts o.purpose o.m)
      (exactBudget o).adjacencies := by
  have hm' := near_m o
  have hsource := near_sourceCommands hm
  have hterminal := near_terminalCf (o := o)
  have one := Double.near_literal 1
  have two := Double.near_literal 2
  have zero := Double.near_literal 0
  have hfirst : (1 + sourceCommands o.purpose o.m + 0 + o.m + 2).Near
      (o.sourceAllocations + o.streams + 3) := by
    convert (((one.add hsource).add zero).add hm').add two using 1
    omega
  have hforward : (1 + 0 + 0 + o.m + 2 : Double).Near (o.streams + 3) := by
    convert (((one.add zero).add zero).add hm').add two using 1
    omega
  have hreverse : (2 + 0 + 0 + o.m + 2 : Double).Near (o.streams + 4) := by
    convert (((two.add zero).add zero).add hm').add two using 1
    omega
  have hlast : (1 + terminalCf o.purpose o.m + 1 + o.m + 2).Near
      (o.terminalAllocations + o.streams + 4) := by
    convert (((one.add hterminal).add one).add hm').add two using 1
    omega
  have hcells : ∀ n : Nat, (OfNat.ofNat n + 8 * N + 16 * o.m + 34 : Double).Near (o.cells n) :=
    fun n => near_cells hN (Double.near_literal n)
  exact .cons ⟨budgetRow_near (hcells 40) hfirst, budgetRow_near (hcells 56) hreverse⟩
    (.cons ⟨budgetRow_near (hcells 24) hforward, budgetRow_near (hcells 40) hreverse⟩
      (.cons ⟨budgetRow_near (hcells 8) hforward, budgetRow_near (hcells 16) hlast⟩ .nil))

end Numbers

/-! ## The result -/

theorem adjacencies_fit_iff {m N : Double} {attempts : List (SetupAttempt Double)}
    {exact : List (Adjacency Nat)}
    (h : List.Forall₂ (fun a b => (a.adjacency m N).Near b) attempts exact) :
    (∀ a ∈ attempts, ¬(exceedsU32 (a.adjacency m N).forward.cells ∨
          exceedsU32 (a.adjacency m N).reverse.cells) ∧
        ¬(exceedsU32 (a.adjacency m N).forward.commands ∨
          exceedsU32 (a.adjacency m N).reverse.commands)) ↔
      ∀ b ∈ exact, b.Fits := by
  induction h with
  | nil => simp only [List.not_mem_nil, false_implies, implies_true]
  | cons hab _ ih => rw [List.forall_mem_cons, List.forall_mem_cons, ih, hab.exceeds_iff]

theorem map_adjacencies {m N : Double} {attempts : List (SetupAttempt Double)}
    {exact : List (Adjacency Nat)}
    (h : List.Forall₂ (fun a b => (a.adjacency m N).Near b) attempts exact)
    (hfits : ∀ b ∈ exact, b.Fits) :
    (attempts.map (·.adjacency m N)).map (·.map Double.val) = exact := by
  induction h with
  | nil => rfl
  | cons hab _ ih =>
    rw [List.forall_mem_cons] at hfits
    rw [List.map_cons, List.map_cons, hab.map_eq hfits.1, ih hfits.2]

theorem directDiscovery_exact :
    directDiscovery.map (·.map Double.val) =
      List.replicate 3 ⟨exactRow 24 0, exactRow 24 1⟩ := by
  decide

theorem near_totalCells {o : RouteOptions} {x : Double}
    (h : x.Near (0 + ((exactBudget o).adjacencies.map fun b =>
      b.forward.cells + b.reverse.cells).sum)) : (x + 144).Near (exactBudget o).totalCells := by
  convert h.add (Double.near_literal 144) using 1
  simp only [exactBudget, exactRow, RouteOptions.cells, List.map_cons, List.map_nil,
    List.sum_cons, List.sum_nil]
  ring

theorem near_purposeRows {o : RouteOptions} (hm : o.maxStreams ≤ maxU32) {N : Double}
    (hN : N.Near o.packets) :
    (Adjacency.mk (budgetRow (8 * N + 16 * o.m + 24) (sourceCommands o.purpose o.m + o.m + 1))
      (budgetRow (8 * N + 16 * o.m + 24) (terminalCf o.purpose o.m + 1 + o.m + 1))).Near
        (exactBudget o).purpose := by
  have one := Double.near_literal 1
  constructor
  · exact budgetRow_near (near_purposeCells hN) (((near_sourceCommands hm).add (near_m o)).add one)
  · refine budgetRow_near (near_purposeCells hN) ?_
    convert ((near_terminalCf.add one).add (near_m o)).add one using 1
    omega

/-- The rows of the purpose are below those of the adjacencies. -/
theorem purpose_fits {o : RouteOptions} (h : ∀ b ∈ (exactBudget o).adjacencies, b.Fits) :
    (exactBudget o).purpose.Fits := by
  simp only [exactBudget, List.forall_mem_cons] at h
  obtain ⟨⟨⟨hcells, hfirst⟩, -⟩, -, ⟨-, ⟨-, hlast⟩⟩, -⟩ := h
  simp only [exactRow, RouteOptions.cells] at hcells hfirst hlast
  simp only [exactBudget, exactRow, Adjacency.Fits, BudgetRow.Fits, RouteOptions.purposeCells]
  omega

theorem budgetOfPackets_eq {o : RouteOptions} (hm : o.maxStreams ≤ maxU32) {N : Double}
    (hN : N.Near o.packets) :
    (budgetOfPackets o.purpose o.m N).map (·.map Double.val) =
      if (exactBudget o).Fits then .ok (exactBudget o) else .error .invalidRoute := by
  have hadj := near_adjacencies hm hN
  unfold budgetOfPackets
  rw [foldlM_guard addAdjacency_eq]
  by_cases hfits : ∀ b ∈ (exactBudget o).adjacencies, b.Fits
  · have hstart : (([], 0) : List (Adjacency Double) × Double).2.Near 0 := Double.near_literal 0
    obtain ⟨hlist, htotal⟩ := foldl_adjacencies hadj hstart
    rw [if_pos ((adjacencies_fit_iff hadj).mpr hfits)]
    generalize List.foldl _ _ (setupAttempts o.purpose o.m) = r at hlist htotal
    obtain ⟨adjacencies, totalAdjacencyCells⟩ := r
    have hcells := near_totalCells htotal
    have hpurpose := near_purposeRows hm hN
    show (if exceedsU32 (totalAdjacencyCells + 144) then Except.error LedgerError.invalidRoute
      else if exceedsU32 (8 * N + 16 * o.m + 24) then .error .invalidRoute
      else .ok _).map _ = _
    rw [if_congr (exceedsU32_iff hcells) rfl rfl,
      if_congr (exceedsU32_iff (near_purposeCells hN)) rfl rfl]
    by_cases htotalFits : (exactBudget o).totalCells ≤ maxU32
    · have hpurposeFits := purpose_fits hfits
      have hpurposeCells : o.purposeCells ≤ maxU32 := hpurposeFits.1.1
      rw [if_neg (not_not.mpr htotalFits), if_neg (not_not.mpr hpurposeCells),
        if_pos ⟨hfits, hpurposeFits, htotalFits⟩]
      have hpackets : N.val = o.packets := by
        have hle : o.packets ≤ o.purposeCells := by
          unfold RouteOptions.purposeCells
          omega
        exact val_eq hN ((Int.ofNat_le.mpr hle).trans hpurposeCells)
      have hadjacencies : adjacencies.map (·.map Double.val) = (exactBudget o).adjacencies := by
        rw [show adjacencies = _ from hlist]
        exact map_adjacencies hadj hfits
      show Except.ok (RouteBudget.mk _ _ _ _ _ _) = Except.ok _
      rw [hpackets, hadjacencies, directDiscovery_exact, hpurpose.map_eq hpurposeFits,
        show _ = _ from val_eq hcells htotalFits]
      rfl
    · rw [if_pos htotalFits, if_neg fun h => htotalFits h.2.2]
      rfl
  · rw [if_neg fun h => hfits ((adjacencies_fit_iff hadj).mp h), if_neg fun h => hfits h.1]
    rfl

theorem expectedAppCount_iff {o : RouteOptions} (hm : 1 ≤ o.maxStreams ∧ o.maxStreams ≤ maxU32) :
    o.applications.length = (if o.purpose = 3 then o.m - 1 else o.m).val ↔
      (o.applications.length : Int) =
        if o.purpose = 3 then o.maxStreams - 1 else o.maxStreams := by
  have hmax : maxU32 = 4294967295 := rfl
  have hstreams : (o.streams : Int) = o.maxStreams := Int.toNat_of_nonneg (by omega)
  by_cases hp : o.purpose = 3
  · rw [if_pos hp, if_pos hp, (near_pred hm.2).val (by omega)]
    omega
  · rw [if_neg hp, if_neg hp, val_u32 hm.2]
    change o.applications.length = o.streams ↔ _
    omega

/-- The loops and sums, for options that passed their checks. -/
theorem computePeerRouteBudget_valid {o : RouteOptions} (hp : 1 ≤ o.purpose ∧ o.purpose ≤ 3)
    (hm : 1 ≤ o.maxStreams ∧ o.maxStreams ≤ maxU32)
    (hlength : (o.applications.length : Int) =
      if o.purpose = 3 then o.maxStreams - 1 else o.maxStreams) :
    (computePeerRouteBudget o).map (·.map Double.val) =
      if (∀ app ∈ o.applications, app.Valid) ∧ (exactBudget o).Fits then .ok (exactBudget o)
      else .error .invalidRoute := by
  have hmax : maxU32 = 4294967295 := rfl
  have hone : ¬o.m < 1 := by
    rw [Double.lt_def, val_u32 hm.2, Double.val_literal (n := 1) (by decide)]
    omega
  unfold computePeerRouteBudget
  rw [if_neg (by simp only [checkU32, Bool.and_eq_false_iff, decide_eq_false_iff_not]; omega)]
  dsimp only
  rw [if_neg (by rw [not_or, not_or]; exact ⟨by omega, by omega, hone⟩),
    if_neg (not_not.mpr ((expectedAppCount_iff hm).mpr hlength)), foldlM_guard addApplication_eq]
  by_cases hvalid : ∀ app ∈ o.applications, app.Valid
  · have hsums := FrameSums.near_zero.foldl hvalid
    rw [List.nil_append] at hsums
    rw [if_pos hvalid, if_congr (and_iff_right hvalid) rfl rfl,
      ← budgetOfPackets_eq hm.2 (near_packets hm.2 hsums)]
    rfl
  · rw [if_neg hvalid, if_neg fun h => hvalid h.1]
    rfl

theorem computePeerRouteBudget_invalid {o : RouteOptions}
    (h : ¬((1 ≤ o.purpose ∧ o.purpose ≤ 3) ∧ (1 ≤ o.maxStreams ∧ o.maxStreams ≤ maxU32) ∧
      (o.applications.length : Int) =
        if o.purpose = 3 then o.maxStreams - 1 else o.maxStreams)) :
    computePeerRouteBudget o = .error .invalidRoute := by
  unfold computePeerRouteBudget
  split
  · rfl
  · next hrange =>
    simp only [checkU32, Bool.and_eq_false_iff, decide_eq_false_iff_not, not_or, not_not] at hrange
    dsimp only
    split
    · rfl
    · next hpurpose =>
      rw [not_or, not_or, Double.lt_def, val_u32 hrange.2.2,
        Double.val_literal (n := 1) (by decide)] at hpurpose
      rw [if_pos]
      intro hlength
      apply h
      refine ⟨by omega, by omega, ?_⟩
      exact (expectedAppCount_iff (by omega)).mp hlength

theorem computePeerRouteBudget_eq (o : RouteOptions) :
    (computePeerRouteBudget o).map (·.map Double.val) =
      if o.Valid ∧ (exactBudget o).Fits then .ok (exactBudget o) else .error .invalidRoute := by
  by_cases hoptions : (1 ≤ o.purpose ∧ o.purpose ≤ 3) ∧ (1 ≤ o.maxStreams ∧ o.maxStreams ≤ maxU32) ∧
      (o.applications.length : Int) = if o.purpose = 3 then o.maxStreams - 1 else o.maxStreams
  · obtain ⟨hp, hm, hlength⟩ := hoptions
    rw [computePeerRouteBudget_valid hp hm hlength]
    refine if_congr ?_ rfl rfl
    unfold RouteOptions.Valid
    tauto
  · rw [if_neg fun h => hoptions ⟨h.1.1, h.1.2.1, h.1.2.2.1⟩,
      computePeerRouteBudget_invalid hoptions]
    rfl

/-- The function fails where a field check fails or an exact number is too large; otherwise
it returns the exact numbers, which agree with each other. -/
theorem budget_exact (o : RouteOptions) :
    match computePeerRouteBudget o with
    | .ok b => (o.Valid ∧ (exactBudget o).Fits) ∧ b.map Double.val = exactBudget o ∧
        (b.map Double.val).Consistent
    | .error _ => ¬(o.Valid ∧ (exactBudget o).Fits) := by
  have hmap := computePeerRouteBudget_eq o
  cases hbudget : computePeerRouteBudget o with
  | ok b =>
    rw [hbudget] at hmap
    by_cases hfits : o.Valid ∧ (exactBudget o).Fits
    · rw [if_pos hfits] at hmap
      have heq : b.map Double.val = exactBudget o := Except.ok.inj hmap
      exact ⟨hfits, heq, heq ▸ exactBudget_consistent o⟩
    · rw [if_neg hfits] at hmap
      cases hmap
  | error e =>
    intro hfits
    rw [hbudget, if_pos hfits] at hmap
    cases hmap

/-- A registration without applications. -/
example : (computePeerRouteBudget ⟨3, 1, []⟩).map (·.totalCells.val) = .ok 820 := by decide

end HyperDht.Private
