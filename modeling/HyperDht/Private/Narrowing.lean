import HyperDht.Private.LedgerRun
import HyperDht.Private.MemoryRun

/-!
# Narrowing

`narrowPeerReservations` over ledgers and memory reservations together. Its rows
come in any order and may be about parents and children at once, so a row of a
parent is checked against what the rows of its children will give back, and the
rows take effect one after the other.

`narrowed` is what the call is for: every row sets its allocation, all of them at
once, and what a ledger or a pool has reserved is added up anew. The call succeeds
exactly when that is `Safe`, and then leaves that state (`narrows_safely`).
-/

namespace HyperDht.Private

/-! ## Rows by their handle -/

section

variable {π β : Type}

/-- The value of the row about `x`, or the old one. -/
def assigned (handle : π → Nat) (value : π → β) (plans : List π) (x : Nat) (old : β) : β :=
  ((plans.find? fun plan => handle plan = x).map value).getD old

variable {handle : π → Nat} {value : π → β}

theorem assigned_cons (plan : π) (plans : List π) (x : Nat) (old : β) :
    assigned handle value (plan :: plans) x old =
      if handle plan = x then value plan else assigned handle value plans x old := by
  unfold assigned
  rw [List.find?_cons]
  split
  · next h => rw [if_pos (of_decide_eq_true h)]; rfl
  · next h => rw [if_neg (of_decide_eq_false h)]

theorem assigned_of_not_mem {plans : List π} {x : Nat} (h : ∀ plan ∈ plans, handle plan ≠ x)
    (old : β) : assigned handle value plans x old = old := by
  unfold assigned
  rw [List.find?_eq_none.mpr fun plan hp => by simpa using h plan hp]
  rfl

theorem assigned_of_mem {plans : List π} (hn : (plans.map handle).Nodup) {plan : π}
    (hp : plan ∈ plans) (old : β) : assigned handle value plans (handle plan) old = value plan := by
  induction plans with
  | nil => exact (List.not_mem_nil hp).elim
  | cons first plans ih =>
    obtain ⟨hout, hn⟩ := List.nodup_cons.mp hn
    rw [assigned_cons]
    rcases List.mem_cons.mp hp with rfl | hp
    · exact if_pos rfl
    · have hne : handle first ≠ handle plan := fun he => hout (he ▸ List.mem_map_of_mem hp)
      rw [if_neg hne, ih hn hp]

/-- With one row for each handle their order does not matter. -/
theorem assigned_perm {plans plans' : List π} (h : plans'.Perm plans) (hn : (plans.map handle).Nodup)
    (x : Nat) (old : β) : assigned handle value plans' x old = assigned handle value plans x old := by
  have hn' : (plans'.map handle).Nodup := (h.map handle).nodup_iff.mpr hn
  by_cases hx : ∃ plan ∈ plans, handle plan = x
  · obtain ⟨plan, hp, rfl⟩ := hx
    rw [assigned_of_mem hn hp, assigned_of_mem hn' (h.mem_iff.mpr hp)]
  · rw [assigned_of_not_mem fun plan hp he => hx ⟨plan, hp, he⟩,
      assigned_of_not_mem fun plan hp he => hx ⟨plan, h.mem_iff.mp hp, he⟩]

end

theorem Row.ext_get {r s : Row} (h : ∀ a, r.get a = s.get a) : r = s := by
  obtain ⟨cells, bytes, commands⟩ := r
  obtain rfl : cells = s.cells := h .cells
  obtain rfl : bytes = s.bytes := h .bytes
  obtain rfl : commands = s.commands := h .commands
  rfl

theorem Row.fits_of_get {r s : Row} (h : ∀ a, r.get a ≤ s.get a) : r.fits s = true := by
  have h₁ := h .cells
  have h₂ := h .bytes
  have h₃ := h .commands
  simp only [fits, Bool.and_eq_true, decide_eq_true_eq]
  exact ⟨⟨h₁, h₂⟩, h₃⟩

/-! ## The ledgers -/

namespace Ledgers

/-- The allocation of a ledger after all rows. -/
def allocationOf (plans : List LedgerPlan) (x : Nat) (l : Ledger) : Row :=
  assigned LedgerPlan.handle LedgerPlan.row plans x l.allocated

def allocate (t : Ledgers) (plans : List LedgerPlan) : Ledgers :=
  { t with states := t.states.mapIdx fun x l => { l with allocated := allocationOf plans x l } }

/-- What live ledgers have reserved is added up again. -/
def resettle (t : Ledgers) : Ledgers :=
  { t with states := t.states.mapIdx fun x l =>
      if l.released then l
      else { l with reserved := ⟨t.childSum x .cells, t.childSum x .bytes, t.childSum x .commands⟩ } }

def narrowed (t : Ledgers) (plans : List LedgerPlan) : Ledgers := (t.allocate plans).resettle

/-- The rows are about live ledgers, one for each. -/
structure Aimed (t : Ledgers) (plans : List LedgerPlan) : Prop where
  live : ∀ plan ∈ plans, ∃ l, t.states[plan.handle]? = some l ∧ l.released = false
  nodup : (plans.map LedgerPlan.handle).Nodup

theorem admissible_iff {t : Ledgers} {plans : List LedgerPlan} {seen : List Nat} :
    t.admissible seen plans = true ↔
      (∀ plan ∈ plans, ∃ l, t.states[plan.handle]? = some l ∧ l.released = false ∧
        plan.row.fits l.allocated = true) ∧
      (plans.map LedgerPlan.handle).Nodup ∧ ∀ plan ∈ plans, plan.handle ∉ seen := by
  refine ⟨admissible_spec, ?_⟩
  induction plans generalizing seen with
  | nil => exact fun _ => rfl
  | cons plan plans ih =>
    rintro ⟨hall, hn, hseen⟩
    obtain ⟨hout, hn⟩ := List.nodup_cons.mp hn
    obtain ⟨l, hl, hlive, hfit⟩ := hall plan List.mem_cons_self
    have hrest := @ih (plan.handle :: seen) ⟨fun q hq => hall q (List.mem_cons_of_mem plan hq),
      hn, fun q hq hm => (List.mem_cons.mp hm).elim (fun he => hout (he ▸ List.mem_map_of_mem hq))
        (hseen q (List.mem_cons_of_mem plan hq))⟩
    have hfresh := hseen plan List.mem_cons_self
    rw [admissible, hl]
    simp [hlive, hfit, hrest, hfresh]

theorem foldl_narrowLedger : ∀ {plans : List LedgerPlan} {t : Ledgers}, t.Aimed plans →
    (plans.foldl narrowLedger t).memory = t.memory ∧
    (plans.foldl narrowLedger t).states.length = t.states.length ∧
    (∀ x q, t.states[x]? = some q → ∃ r : Row, (plans.foldl narrowLedger t).states[x]? =
        some { q with allocated := allocationOf plans x q, reserved := r } ∧
      ∀ a, r.get a = q.reserved.get a - (t.returnedTo x plans).get a) ∧
    ∀ x a, (plans.foldl narrowLedger t).childSum x a =
      t.childSum x a - (t.returnedTo x plans).get a := by
  intro plans
  induction plans with
  | nil =>
    intro t _
    refine ⟨rfl, rfl, fun x q hq => ⟨q.reserved, hq, fun a => ?_⟩, fun x a => ?_⟩
    · rw [get_returnedTo_nil, Int.sub_zero]
    · rw [get_returnedTo_nil, Int.sub_zero]
      rfl
  | cons plan plans ih =>
    intro t h
    obtain ⟨l, hl, hlive⟩ := h.live plan List.mem_cons_self
    obtain ⟨hout, hn⟩ := List.nodup_cons.mp h.nodup
    have hne : ∀ q ∈ plans, plan.handle ≠ q.handle := fun q hq he =>
      hout (he ▸ List.mem_map_of_mem hq)
    have hret := fun x a => returnedTo_narrowLedger hl hne x a
    have haimed : (t.narrowLedger plan).Aimed plans := by
      refine ⟨fun pl hpl => ?_, hn⟩
      obtain ⟨q, hq, hqr⟩ := h.live pl (List.mem_cons_of_mem plan hpl)
      exact ⟨shrink plan l pl.handle q, by rw [get_narrowLedger hl, hq, Option.map_some], hqr⟩
    obtain ⟨hmem, hlen, hget, hsum⟩ := ih haimed
    refine ⟨hmem.trans (narrowLedger_memory t plan), hlen.trans (narrowLedger_length t plan),
      fun x q hq => ?_, fun x a => ?_⟩
    · obtain ⟨r, hr, hra⟩ := hget x (shrink plan l x q) (by rw [get_narrowLedger hl, hq, Option.map_some])
      refine ⟨r, ?_, fun a => ?_⟩
      · have halloc : allocationOf plans x (shrink plan l x q) = allocationOf (plan :: plans) x q := by
          unfold allocationOf
          rw [assigned_cons]
          split
          · next he =>
            rw [assigned_of_not_mem fun pl hpl hx => hne pl hpl (he.trans hx.symm), shrink, if_pos he]
          · next he => rw [shrink, if_neg he]
        rw [List.foldl_cons, hr, halloc]
        rfl
      · have := hret x a
        rw [hra, get_reserved_shrink]
        omega
    · have := hret x a
      rw [List.foldl_cons, hsum, childSum_narrowLedger hl hlive]
      omega

theorem getElem?_allocate (t : Ledgers) (plans : List LedgerPlan) (x : Nat) :
    (t.allocate plans).states[x]? =
      (t.states[x]?).map fun l => { l with allocated := allocationOf plans x l } :=
  List.getElem?_mapIdx

/-- The new allocations alone determine what the children of a ledger hold. -/
theorem childSum_allocate {t : Ledgers} {plans : List LedgerPlan} (h : t.Aimed plans) (x : Nat)
    (a : Axis) : (t.allocate plans).childSum x a =
      t.childSum x a - (t.returnedTo x plans).get a := by
  obtain ⟨-, hlen, hget, hsum⟩ := foldl_narrowLedger h
  have hlen' : (t.allocate plans).states.length = t.states.length := List.length_mapIdx
  rw [← hsum x a]
  unfold childSum
  rw [hlen, hlen']
  refine Finset.sum_congr rfl fun c _ => ?_
  unfold held
  rw [getElem?_allocate]
  cases hc : t.states[c]? with
  | none =>
    have hout : (plans.foldl narrowLedger t).states[c]? = none := by
      rw [List.getElem?_eq_none_iff, hlen]
      exact List.getElem?_eq_none_iff.mp hc
    rw [hout]
    rfl
  | some q =>
    obtain ⟨r, hr, -⟩ := hget c q hc
    rw [hr]
    rfl

theorem getElem?_narrowed (t : Ledgers) (plans : List LedgerPlan) {x : Nat} {q : Ledger}
    (hq : t.states[x]? = some q) : (t.narrowed plans).states[x]? =
      some (if q.released then { q with allocated := allocationOf plans x q }
        else { q with
          allocated := allocationOf plans x q
          reserved := ⟨(t.allocate plans).childSum x .cells, (t.allocate plans).childSum x .bytes,
            (t.allocate plans).childSum x .commands⟩ }) := by
  have h₁ : (t.narrowed plans).states[x]? = ((t.allocate plans).states[x]?).map _ :=
    List.getElem?_mapIdx
  rw [h₁, getElem?_allocate, hq]
  rfl

/-- The children of a released ledger are released, so no row gives anything back to it. -/
theorem returnedTo_released {t : Ledgers} (ht : t.Tree) {x : Nat} {q : Ledger}
    (hq : t.states[x]? = some q) (hr : q.released = true) (a : Axis) :
    ∀ {plans : List LedgerPlan},
      (∀ plan ∈ plans, ∃ l, t.states[plan.handle]? = some l ∧ l.released = false) →
      (t.returnedTo x plans).get a = 0 := by
  intro plans
  induction plans with
  | nil => exact fun _ => get_returnedTo_nil t x a
  | cons plan plans ih =>
    intro h
    obtain ⟨l, hl, hlive⟩ := h plan List.mem_cons_self
    rw [get_returnedTo_cons, ih fun pl hpl => h pl (List.mem_cons_of_mem plan hpl)]
    unfold returnedBy
    rw [hl]
    dsimp only
    rw [if_neg, Row.get_zero, Int.add_zero]
    intro hp
    obtain ⟨q', hq', hlive'⟩ := ht.live hl hlive hp
    obtain rfl := Option.some.inj (hq.symm.trans hq')
    rw [hr] at hlive'
    cases hlive'

/-- The rows one after the other leave what all rows at once are for. -/
theorem foldl_eq_narrowed {t : Ledgers} (ht : t.Tree) (hf : t.Funded fun _ _ => 0)
    {plans : List LedgerPlan} (h : t.Aimed plans) : plans.foldl narrowLedger t = t.narrowed plans := by
  obtain ⟨hmem, hlen, hget, -⟩ := foldl_narrowLedger h
  have hlen' : (t.narrowed plans).states.length = t.states.length := by
    unfold narrowed resettle allocate
    rw [List.length_mapIdx, List.length_mapIdx]
  have hstates : (plans.foldl narrowLedger t).states = (t.narrowed plans).states := by
    apply List.ext_getElem?
    intro x
    cases hq : t.states[x]? with
    | none =>
      have hx := List.getElem?_eq_none_iff.mp hq
      rw [List.getElem?_eq_none_iff.mpr (hlen ▸ hx), List.getElem?_eq_none_iff.mpr (hlen' ▸ hx)]
    | some q =>
      obtain ⟨r, hr, hra⟩ := hget x q hq
      rw [hr, getElem?_narrowed t plans hq]
      congr 1
      split
      · next hrel =>
        have hsame : r = q.reserved := Row.ext_get fun a => by
          rw [hra, returnedTo_released ht hq hrel a h.live, Int.sub_zero]
        rw [hsame]
      · next hrel =>
        have hlive : q.released = false := by simpa using hrel
        have hsame : r = ⟨(t.allocate plans).childSum x .cells, (t.allocate plans).childSum x .bytes,
            (t.allocate plans).childSum x .commands⟩ := Row.ext_get fun a => by
          have hsum := childSum_allocate h x a
          have hres := hf.reserved hq hlive a
          have hra' := hra a
          cases a <;> simp only [Row.get] at hra' hres ⊢ <;> simp only [Row.get] at hsum <;> omega
        rw [hsame]
  cases hf₁ : plans.foldl narrowLedger t with
  | mk states memory =>
    cases hf₂ : t.narrowed plans with
    | mk states' memory' =>
      rw [hf₁] at hstates hmem
      have hmem' : (t.narrowed plans).memory = t.memory := rfl
      rw [hf₂] at hstates hmem'
      obtain rfl : states = states' := hstates
      obtain rfl : memory = t.memory := hmem
      obtain rfl : memory' = t.memory := hmem'
      rfl

/-- In the ledgers after all rows no live one has more than its allocation. -/
def Roomy (t : Ledgers) : Prop :=
  ∀ (x : Nat) (l : Ledger), t.states[x]? = some l → l.released = false → ∀ a,
    l.spent.get a + l.reserved.get a ≤ l.allocated.get a

/-- The second pass checks that the ledgers after all rows are in order. -/
theorem covers_iff {t : Ledgers} {log : List (Nat × Row)} (hc : t.Conserved log)
    {plans : List LedgerPlan} (hadm : t.admissible [] plans = true) :
    plans.all (t.covers plans) = true ↔ (t.narrowed plans).Roomy := by
  obtain ⟨hall, hn, -⟩ := admissible_spec hadm
  have haimed : t.Aimed plans := ⟨fun plan hp => by
    obtain ⟨l, hl, hlive, -⟩ := hall plan hp
    exact ⟨l, hl, hlive⟩, hn⟩
  constructor
  · intro hcov
    obtain ⟨ht', -, hn'⟩ := narrow_foldl plans t hc.tree hc.logged
      (narrowing_of_checked hc.funded hadm hcov)
    rw [foldl_eq_narrowed hc.tree hc.funded haimed] at ht' hn'
    exact fun x l hl hr a => (hn'.funded ht').room hl hr a
  · intro hroom
    refine List.all_eq_true.mpr fun plan hp => ?_
    obtain ⟨l, hl, hlive⟩ := haimed.live plan hp
    have hget := getElem?_narrowed t plans hl
    rw [hlive, if_neg (by decide)] at hget
    unfold covers
    rw [hl]
    refine Row.fits_of_get fun a => ?_
    have hle := hroom plan.handle _ hget rfl a
    have hsum := childSum_allocate haimed plan.handle a
    have hres := hc.funded.reserved hl hlive a
    have halloc : allocationOf plans plan.handle l = plan.row := assigned_of_mem hn hp l.allocated
    rw [Row.get_sub, Row.get_add]
    rw [halloc] at hle
    have hnew : (⟨(t.allocate plans).childSum plan.handle .cells,
        (t.allocate plans).childSum plan.handle .bytes,
        (t.allocate plans).childSum plan.handle .commands⟩ : Row).get a =
        (t.allocate plans).childSum plan.handle a := by
      cases a <;> rfl
    dsimp only at hle
    rw [hnew] at hle
    omega

/-! ### The calls that leave the memory alone -/

theorem chargeAbove_memory (row : Row) : ∀ (fuel : Nat) (next : Option Nat) (t : Ledgers),
    (chargeAbove row fuel next t).memory = t.memory
  | 0, _, _ => rfl
  | _ + 1, none, _ => rfl
  | fuel + 1, some current, t => by
    rw [chargeAbove]
    split
    · rfl
    · exact chargeAbove_memory row fuel _ _

theorem release_memory : ∀ (fuel h : Nat) (t : Ledgers), (release fuel h t).memory = t.memory
  | 0, _, _ => rfl
  | fuel + 1, h, t => by
    have hfold : ∀ (cs : List Nat) (t : Ledgers),
        (cs.foldl (fun t c => release fuel c t) t).memory = t.memory := by
      intro cs
      induction cs with
      | nil => exact fun _ => rfl
      | cons c cs ih => exact fun t => (ih _).trans (release_memory fuel c t)
    rw [release]
    split
    · rfl
    · split
      · rfl
      · dsimp only
        split
        · exact hfold _ _
        · exact hfold _ _

theorem createPeerLedger_memory (t : Ledgers) (row : Row) :
    (t.createPeerLedger row).1.memory = t.memory := by
  rcases t.createPeerLedger_cases row with he | ⟨-, he⟩
  all_goals rw [he]
  rfl

theorem reservePeerLedger_memory (t : Ledgers) (parent : Nat) (row : Row) :
    (t.reservePeerLedger parent row).1.memory = t.memory := by
  rcases t.reservePeerLedger_cases parent row with he | ⟨p, -, -, -, -, he⟩
  all_goals rw [he]
  rfl

theorem chargePeerLedger_memory (t : Ledgers) (handle : Nat) (row : Row) :
    (t.chargePeerLedger handle row).1.memory = t.memory := by
  rcases t.chargePeerLedger_cases handle row with he | ⟨l, -, -, -, -, he⟩
  all_goals rw [he]
  exact chargeAbove_memory row _ _ _

theorem releasePeerLedger_memory (t : Ledgers) (handle : Nat) :
    (t.releasePeerLedger handle).1.memory = t.memory := by
  rcases t.releasePeerLedger_cases handle with he | he | ⟨l, -, -, he⟩
  all_goals rw [he]
  exact release_memory _ _ _

end Ledgers

/-! ## The memory reservations -/

namespace MemoryTree

/-- The capacity of a reservation after all rows. -/
def capacityOf (plans : List MemoryPlan) (j : Nat) (r : PoolReservation) : Int :=
  assigned MemoryPlan.handle MemoryPlan.capacityBytes plans j r.capacityBytes

def allocate (t : MemoryTree) (plans : List MemoryPlan) : MemoryTree :=
  { t with reservations := t.reservations.mapIdx fun j r => { r with
      capacityBytes := capacityOf plans j r } }

/-- What the pools have reserved is added up again. -/
def resettle (t : MemoryTree) : MemoryTree :=
  { t with pools := t.pools.mapIdx fun i p => { p with reservedBytes := t.liveBytes i } }

def narrowed (t : MemoryTree) (plans : List MemoryPlan) : MemoryTree := (t.allocate plans).resettle

theorem narrowable_iff {t : MemoryTree} {plans : List MemoryPlan} {seen : List Nat} :
    t.narrowable seen plans = true ↔
      (∀ plan ∈ plans, ∃ r, t.reservations[plan.handle]? = some r ∧ r.released = false ∧
        plan.capacityBytes ≤ r.capacityBytes ∧
        (r.taken = true → plan.capacityBytes = r.capacityBytes)) ∧
      (plans.map MemoryPlan.handle).Nodup ∧ ∀ plan ∈ plans, plan.handle ∉ seen := by
  induction plans generalizing seen with
  | nil =>
    exact ⟨fun _ => ⟨fun _ h => (List.not_mem_nil h).elim, List.nodup_nil,
      fun _ h => (List.not_mem_nil h).elim⟩, fun _ => rfl⟩
  | cons plan plans ih =>
    unfold narrowable
    constructor
    · intro h
      cases hr : t.reservations[plan.handle]? with
      | none => simp [hr] at h
      | some r =>
        rw [hr] at h
        simp only [Bool.and_eq_true, Bool.not_eq_true', decide_eq_true_eq] at h
        obtain ⟨⟨⟨⟨hlive, hseen⟩, hle⟩, htaken⟩, hrest⟩ := h
        obtain ⟨hall, hn, hout⟩ := ih.mp hrest
        refine ⟨fun pl hpl => ?_, List.nodup_cons.mpr ⟨fun hm => ?_, hn⟩, fun pl hpl => ?_⟩
        · rcases List.mem_cons.mp hpl with rfl | hpl
          · exact ⟨r, hr, hlive, hle, fun ht => by simpa [ht] using htaken⟩
          · exact hall pl hpl
        · obtain ⟨pl, hpl, he⟩ := List.mem_map.mp hm
          exact hout pl hpl (he ▸ List.mem_cons_self)
        · rcases List.mem_cons.mp hpl with rfl | hpl
          · simpa using hseen
          · exact fun hm => hout pl hpl (List.mem_cons_of_mem _ hm)
    · rintro ⟨hall, hn, hseen⟩
      obtain ⟨hout, hn⟩ := List.nodup_cons.mp hn
      obtain ⟨r, hr, hlive, hle, htaken⟩ := hall plan List.mem_cons_self
      have hrest := (@ih (plan.handle :: seen)).mpr
        ⟨fun q hq => hall q (List.mem_cons_of_mem plan hq), hn, fun q hq hm =>
          (List.mem_cons.mp hm).elim (fun he => hout (he ▸ List.mem_map_of_mem hq))
            (hseen q (List.mem_cons_of_mem plan hq))⟩
      have hfresh := hseen plan List.mem_cons_self
      have hsize : (!r.taken || plan.capacityBytes == r.capacityBytes) = true := by
        cases ht : r.taken with
        | false => rfl
        | true => simp [htaken ht]
      rw [hr]
      simp [hlive, hle, hrest, hfresh, hsize]

/-- What all rows together do to the reservations; in the pools only `reservedBytes` moves. -/
theorem foldl_narrowRow : ∀ {plans : List MemoryPlan} {t : MemoryTree},
    (∀ plan ∈ plans, plan.handle < t.reservations.length) → (plans.map MemoryPlan.handle).Nodup →
    (plans.foldl narrowRow t).reservations = (t.allocate plans).reservations ∧
    (plans.foldl narrowRow t).pools.length = t.pools.length ∧
    ∀ (i : Nat) (p : MemoryPool), t.pools[i]? = some p → ∃ b,
      (plans.foldl narrowRow t).pools[i]? = some { p with reservedBytes := b } := by
  intro plans
  induction plans with
  | nil =>
    intro t _ _
    refine ⟨?_, rfl, fun i p hp => ⟨p.reservedBytes, hp⟩⟩
    apply List.ext_getElem?
    intro j
    show t.reservations[j]? = (t.reservations.mapIdx _)[j]?
    rw [List.getElem?_mapIdx]
    cases t.reservations[j]? with
    | none => rfl
    | some r => rfl
  | cons plan plans ih =>
    intro t hknown hn
    obtain ⟨hout, hn⟩ := List.nodup_cons.mp hn
    have hne : ∀ q ∈ plans, plan.handle ≠ q.handle := fun q hq he =>
      hout (he ▸ List.mem_map_of_mem hq)
    obtain ⟨r, hr⟩ : ∃ r, t.reservations[plan.handle]? = some r :=
      ⟨_, List.getElem?_eq_getElem (hknown plan List.mem_cons_self)⟩
    have hstep : t.narrowRow plan = (t.modifyReservation plan.handle fun r => { r with
        capacityBytes := plan.capacityBytes }).modifyPool r.pool fun p => { p with
          reservedBytes := p.reservedBytes - (r.capacityBytes - plan.capacityBytes) } := by
      rw [narrowRow, hr]
    have hlen : (t.narrowRow plan).reservations.length = t.reservations.length := by
      rw [hstep]
      exact List.length_modify _ _ _
    obtain ⟨hres, hpools, hpool⟩ := ih (t := t.narrowRow plan)
      (fun q hq => hlen ▸ hknown q (List.mem_cons_of_mem plan hq)) hn
    refine ⟨?_, hpools.trans ?_, fun i p hp => ?_⟩
    · rw [List.foldl_cons, hres]
      apply List.ext_getElem?
      intro j
      show ((t.narrowRow plan).reservations.mapIdx _)[j]? = (t.reservations.mapIdx _)[j]?
      rw [List.getElem?_mapIdx, List.getElem?_mapIdx, hstep]
      show ((t.modifyReservation plan.handle _).reservations[j]?).map _ = _
      rw [getElem?_modifyReservation]
      cases t.reservations[j]? with
      | none => rfl
      | some q =>
        have hcap : ∀ old : PoolReservation, capacityOf (plan :: plans) j old =
            if plan.handle = j then plan.capacityBytes else capacityOf plans j old := fun old =>
          assigned_cons plan plans j old.capacityBytes
        simp only [Option.map_some, hcap]
        split
        · next he =>
          rw [capacityOf, assigned_of_not_mem fun pl hpl hx => hne pl hpl (he.trans hx.symm)]
        · rfl
    · rw [hstep]
      exact List.length_modify _ _ _
    · have hp' : ∃ b, (t.narrowRow plan).pools[i]? = some { p with reservedBytes := b } := by
        rw [hstep, getElem?_modifyPool]
        show ∃ b, (t.pools[i]?).map _ = _
        rw [hp]
        by_cases he : r.pool = i
        · exact ⟨_, by rw [Option.map_some, if_pos he]⟩
        · exact ⟨p.reservedBytes, by rw [Option.map_some, if_neg he]⟩
      obtain ⟨b, hb⟩ := hp'
      exact hpool i { p with reservedBytes := b } hb

theorem foldl_eq_narrowed {t : MemoryTree} (hs : t.Sound) {plans : List MemoryPlan}
    (hcap : ∀ plan ∈ plans, 0 ≤ plan.capacityBytes) (hok : t.narrowable [] plans = true) :
    plans.foldl narrowRow t = t.narrowed plans := by
  obtain ⟨hall, hn, -⟩ := narrowable_iff.mp hok
  obtain ⟨hres, hlen, hpool⟩ := foldl_narrowRow (t := t) (fun plan hp => by
    obtain ⟨r, hr, -⟩ := hall plan hp
    exact (List.getElem?_eq_some_iff.mp hr).1) hn
  have hsound := (hs.foldl_narrowRow hcap hok).sound
  have hlive : ∀ i, (plans.foldl narrowRow t).liveBytes i = (t.allocate plans).liveBytes i := by
    intro i
    unfold liveBytes
    rw [hres]
  have hpools : (plans.foldl narrowRow t).pools = (t.narrowed plans).pools := by
    apply List.ext_getElem?
    intro i
    show _ = (t.pools.mapIdx _)[i]?
    rw [List.getElem?_mapIdx]
    cases hp : t.pools[i]? with
    | none => exact List.getElem?_eq_none_iff.mpr (hlen ▸ List.getElem?_eq_none_iff.mp hp)
    | some p =>
      obtain ⟨b, hb⟩ := hpool i p hp
      obtain rfl : b = (t.allocate plans).liveBytes i := (hsound.reserved hb).trans (hlive i)
      exact hb
  cases hf : plans.foldl narrowRow t with
  | mk pools reservations =>
    rw [hf] at hres hpools
    obtain rfl : pools = (t.narrowed plans).pools := hpools
    obtain rfl : reservations = (t.narrowed plans).reservations := hres
    rfl

end MemoryTree

/-! ## Both together -/

namespace PeerReservations

open Ledgers (LedgerPlan)

inductive Call where
  | createPeerLedger (row : Row)
  | reservePeerLedger (parent : Nat) (row : Row)
  | chargePeerLedger (handle : Nat) (row : Row)
  | releasePeerLedger (handle : Nat)
  | createPeerMemoryPool (capacityBytes : Int)
  | reservePeerMemory (pool : Nat) (kind : String) (capacityBytes : Int)
  | takePeerMemory (res : Nat)
  | releasePeerMemory (handle : MemoryHandle)
  | narrowPeerReservations (ledgers : List LedgerPlan) (memory : List MemoryPlan)

def step (s : Ledgers) : Call → Ledgers
  | .createPeerLedger row => (s.createPeerLedger row).1
  | .reservePeerLedger parent row => (s.reservePeerLedger parent row).1
  | .chargePeerLedger handle row => (s.chargePeerLedger handle row).1
  | .releasePeerLedger handle => (s.releasePeerLedger handle).1
  | .createPeerMemoryPool c => { s with memory := (s.memory.createPeerMemoryPool c).1 }
  | .reservePeerMemory pool kind c => { s with memory := (s.memory.reservePeerMemory pool kind c).1 }
  | .takePeerMemory res => { s with memory := (s.memory.takePeerMemory res).1 }
  | .releasePeerMemory handle => { s with memory := (s.memory.releasePeerMemory handle).1 }
  | .narrowPeerReservations ledgers memory => (s.narrowPeerReservations ledgers memory).1

def run (calls : List Call) : Ledgers := calls.foldl step (.empty .empty)

/-- The state in which every row has set its allocation. -/
def narrowed (s : Ledgers) (ledgers : List LedgerPlan) (memory : List MemoryPlan) : Ledgers :=
  { s.narrowed ledgers with memory := s.memory.narrowed memory }

/-- The narrowings that are safe: amounts in the ranges of their axes, rows about live
handles, one for each and none above what it has now, no taken reservation resized, and
room at every ledger when all allocations are set. -/
structure Safe (s : Ledgers) (ledgers : List LedgerPlan) (memory : List MemoryPlan) :
    Prop where
  amounts : (∀ plan ∈ ledgers, plan.row.valid = true) ∧
    ∀ plan ∈ memory, checkU32 plan.capacityBytes = true
  ledgerRows : ∀ plan ∈ ledgers, ∃ l : Ledger, s.states[plan.handle]? = some l ∧
    l.released = false ∧ plan.row.fits l.allocated = true
  memoryRows : ∀ plan ∈ memory, ∃ r : PoolReservation,
    s.memory.reservations[plan.handle]? = some r ∧ r.released = false ∧
      plan.capacityBytes ≤ r.capacityBytes ∧
      (r.taken = true → plan.capacityBytes = r.capacityBytes)
  distinct : (ledgers.map LedgerPlan.handle).Nodup ∧ (memory.map MemoryPlan.handle).Nodup
  room : (s.narrowed ledgers).Roomy

variable {s : Ledgers} {ledgers ledgers' : List LedgerPlan} {memory memory' : List MemoryPlan}

/-- The call either changes nothing or passes all its checks. -/
theorem narrow_cases (s : Ledgers) (ledgers : List LedgerPlan) (memory : List MemoryPlan) :
    s.narrowPeerReservations ledgers memory = (s, .error .invalidRoute) ∨
      s.narrowPeerReservations ledgers memory =
        ({ ledgers.foldl Ledgers.narrowLedger s with
            memory := memory.foldl MemoryTree.narrowRow s.memory }, .ok ()) ∧
      ((∀ plan ∈ ledgers, plan.row.valid = true) ∧
        ∀ plan ∈ memory, checkU32 plan.capacityBytes = true) ∧
      s.admissible [] ledgers = true ∧ ledgers.all (s.covers ledgers) = true ∧
      s.memory.narrowable [] memory = true := by
  unfold Ledgers.narrowPeerReservations
  split
  · exact .inl rfl
  · next hval =>
    rw [not_or] at hval
    split
    · exact .inl rfl
    · next hadm =>
      split
      · exact .inl rfl
      · next hcov =>
        split
        · exact .inl rfl
        · next hmem =>
          refine .inr ⟨rfl, ⟨fun plan hp => ?_, fun plan hp => ?_⟩, by simpa using hadm,
            by simpa using hcov, by simpa using hmem⟩
          · exact List.all_eq_true.mp (by simpa using hval.1) plan hp
          · exact List.all_eq_true.mp (by simpa using hval.2) plan hp

/-- What holds of both parts after every call. -/
structure Sound (s : Ledgers) : Prop where
  ledgers : ∃ log, s.Conserved log
  memory : s.memory.Sound

/-- The memory is narrowed as `MemoryTree` has it. -/
theorem narrow_memory (h : (s.narrowPeerReservations ledgers memory).2 = .ok ()) :
    (s.narrowPeerReservations ledgers memory).1.memory =
      (s.memory.narrowPeerReservations true memory).1 := by
  rcases narrow_cases s ledgers memory with he | ⟨he, hval, -, -, hmem⟩
  · rw [he] at h
    cases h
  · have hv : memory.all (fun plan => checkU32 plan.capacityBytes) = true :=
      List.all_eq_true.mpr hval.2
    rw [he]
    unfold MemoryTree.narrowPeerReservations
    simp [hv, hmem]

theorem Sound.step (h : Sound s) (call : Call) : Sound (step s call) := by
  obtain ⟨log, hl⟩ := h.ledgers
  have hledger : ∀ op : LedgerOp, ∃ log, (s.apply op).1.Conserved log := fun op => ⟨_, hl.step op⟩
  have hmemory : ∀ op : MemoryTree.Op, Sound { s with memory := s.memory.step op } := fun op =>
    ⟨hledger (.memory _), (h.memory.step op).1⟩
  cases call with
  | createPeerLedger row =>
    exact ⟨hledger (.create row), (s.createPeerLedger_memory row).symm ▸ h.memory⟩
  | reservePeerLedger parent row =>
    exact ⟨hledger (.reserve parent row), (s.reservePeerLedger_memory parent row).symm ▸ h.memory⟩
  | chargePeerLedger handle row =>
    exact ⟨hledger (.charge handle row), (s.chargePeerLedger_memory handle row).symm ▸ h.memory⟩
  | releasePeerLedger handle =>
    exact ⟨hledger (.release handle), (s.releasePeerLedger_memory handle).symm ▸ h.memory⟩
  | createPeerMemoryPool c => exact hmemory (.createPeerMemoryPool c)
  | reservePeerMemory pool kind c => exact hmemory (.reservePeerMemory pool kind c)
  | takePeerMemory res => exact hmemory (.takePeerMemory res)
  | releasePeerMemory handle => exact hmemory (.releasePeerMemory handle)
  | narrowPeerReservations ledgers memory =>
    refine ⟨hledger (.narrow ledgers memory), ?_⟩
    show (s.narrowPeerReservations ledgers memory).1.memory.Sound
    rcases narrow_cases s ledgers memory with he | ⟨he, -⟩
    · rw [he]
      exact h.memory
    · rw [narrow_memory (by rw [he])]
      exact (h.memory.step (.narrowPeerReservations true memory)).1

theorem sound_run (calls : List Call) : Sound (run calls) := by
  have hrun : ∀ (calls : List Call) (s : Ledgers), Sound s → Sound (calls.foldl step s) := by
    intro calls
    induction calls with
    | nil => exact fun s h => h
    | cons call calls ih => exact fun s h => ih _ (h.step call)
  exact hrun calls _ ⟨⟨[], Ledgers.conserved_empty _⟩, MemoryTree.sound_empty⟩

/-- The call succeeds on the safe narrowings, with all rows set at once. -/
theorem narrow_of_safe (hs : Sound s) (h : Safe s ledgers memory) :
    s.narrowPeerReservations ledgers memory = (narrowed s ledgers memory, .ok ()) := by
  obtain ⟨log, hl⟩ := hs.ledgers
  have hv₁ : ledgers.all (fun plan => plan.row.valid) = true := List.all_eq_true.mpr h.amounts.1
  have hv₂ : memory.all (fun plan => checkU32 plan.capacityBytes) = true :=
    List.all_eq_true.mpr h.amounts.2
  have hadm : s.admissible [] ledgers = true :=
    Ledgers.admissible_iff.mpr ⟨h.ledgerRows, h.distinct.1, fun _ _ => List.not_mem_nil⟩
  have hcov := (Ledgers.covers_iff hl hadm).mpr h.room
  have hmem : s.memory.narrowable [] memory = true :=
    MemoryTree.narrowable_iff.mpr ⟨h.memoryRows, h.distinct.2, fun _ _ => List.not_mem_nil⟩
  have haimed : s.Aimed ledgers := ⟨fun plan hp => by
    obtain ⟨l, hl, hlive, -⟩ := h.ledgerRows plan hp
    exact ⟨l, hl, hlive⟩, h.distinct.1⟩
  have hcap : ∀ plan ∈ memory, 0 ≤ plan.capacityBytes := fun plan hp => by
    have := h.amounts.2 plan hp
    simp only [checkU32, Bool.and_eq_true, decide_eq_true_eq] at this
    exact this.1
  unfold Ledgers.narrowPeerReservations
  rw [if_neg (by simp [hv₁, hv₂]), if_neg (by simp [hadm]), if_neg (by simp [hcov]),
    if_neg (by simp [hmem]), Ledgers.foldl_eq_narrowed hl.tree hl.funded haimed,
    MemoryTree.foldl_eq_narrowed hs.memory hcap hmem]
  rfl

theorem safe_of_narrow (hs : Sound s) (h : (s.narrowPeerReservations ledgers memory).2 = .ok ()) :
    Safe s ledgers memory := by
  obtain ⟨log, hl⟩ := hs.ledgers
  rcases narrow_cases s ledgers memory with he | ⟨-, hval, hadm, hcov, hmem⟩
  · rw [he] at h
    cases h
  · obtain ⟨hall, hn, -⟩ := Ledgers.admissible_iff.mp hadm
    obtain ⟨hall', hn', -⟩ := MemoryTree.narrowable_iff.mp hmem
    exact ⟨hval, hall, hall', ⟨hn, hn'⟩, (Ledgers.covers_iff hl hadm).mp hcov⟩

theorem allocate_perm (hl : ledgers'.Perm ledgers) (hn : (ledgers.map LedgerPlan.handle).Nodup) :
    s.allocate ledgers' = s.allocate ledgers := by
  unfold Ledgers.allocate Ledgers.allocationOf
  simp only [assigned_perm hl hn]

/-- What all rows at once do does not depend on their order. -/
theorem narrowed_perm (hl : ledgers'.Perm ledgers) (hm : memory'.Perm memory)
    (hn : (ledgers.map LedgerPlan.handle).Nodup ∧ (memory.map MemoryPlan.handle).Nodup) :
    narrowed s ledgers' memory' = narrowed s ledgers memory := by
  have h₁ : s.allocate ledgers' = s.allocate ledgers := allocate_perm hl hn.1
  have h₂ : s.memory.allocate memory' = s.memory.allocate memory := by
    unfold MemoryTree.allocate MemoryTree.capacityOf
    simp only [assigned_perm hm hn.2]
  unfold narrowed Ledgers.narrowed MemoryTree.narrowed
  rw [h₁, h₂]

theorem Safe.perm (h : Safe s ledgers memory) (hl : ledgers'.Perm ledgers)
    (hm : memory'.Perm memory) : Safe s ledgers' memory' where
  amounts := ⟨fun plan hp => h.amounts.1 plan (hl.mem_iff.mp hp),
    fun plan hp => h.amounts.2 plan (hm.mem_iff.mp hp)⟩
  ledgerRows := fun plan hp => h.ledgerRows plan (hl.mem_iff.mp hp)
  memoryRows := fun plan hp => h.memoryRows plan (hm.mem_iff.mp hp)
  distinct := ⟨(hl.map LedgerPlan.handle).nodup_iff.mpr h.distinct.1,
    (hm.map MemoryPlan.handle).nodup_iff.mpr h.distinct.2⟩
  room := by
    have hsame : s.allocate ledgers' = s.allocate ledgers := allocate_perm hl h.distinct.1
    unfold Ledgers.narrowed
    rw [hsame]
    exact h.room

/-- **Exactly the safe narrowings.** In every state the program can reach a call of
`narrowPeerReservations` succeeds if and only if its rows are safe. Then it leaves the state
in which all rows are set at once, whatever their order; if it fails it changes nothing. -/
theorem narrows_safely (calls : List Call) (ledgers : List LedgerPlan) (memory : List MemoryPlan) :
    let s := run calls
    ((s.narrowPeerReservations ledgers memory).2 = .ok () ↔ Safe s ledgers memory) ∧
    ((s.narrowPeerReservations ledgers memory).2 = .ok () →
      ∀ ledgers' memory', ledgers'.Perm ledgers → memory'.Perm memory →
        s.narrowPeerReservations ledgers' memory' = (narrowed s ledgers memory, .ok ())) ∧
    ∀ e, (s.narrowPeerReservations ledgers memory).2 = .error e →
      (s.narrowPeerReservations ledgers memory).1 = s := by
  intro s
  have hs : Sound s := sound_run calls
  refine ⟨⟨safe_of_narrow hs, fun h => by rw [narrow_of_safe hs h]⟩,
    fun h ledgers' memory' hl hm => ?_, fun e h => ?_⟩
  · have hsafe := safe_of_narrow hs h
    rw [narrow_of_safe hs (hsafe.perm hl hm), narrowed_perm hl hm hsafe.distinct]
  · rcases narrow_cases s ledgers memory with he | ⟨he, -⟩
    · rw [he]
    · rw [he] at h
      cases h

-- A parent of 10 cells gives back what its child of 8 gives back, with the parent's row first.
example : let s := run [.createPeerLedger ⟨10, 0, 0⟩, .reservePeerLedger 0 ⟨8, 0, 0⟩]
    ((s.narrowPeerReservations [⟨0, ⟨3, 0, 0⟩⟩, ⟨1, ⟨2, 0, 0⟩⟩] []).1.states.map
      fun l => (l.allocated.cells, l.reserved.cells)) = [(3, 2), (2, 0)] := by
  decide

end PeerReservations

end HyperDht.Private
