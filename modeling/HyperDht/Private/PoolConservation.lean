import HyperDht.Private.CreditPool
import Mathlib.Algebra.Order.Ring.Int
import Mathlib.Tactic.Common

/-!
# Conservation of circuit credit

`Pool.Conserved` is the invariant of a live pool: the available credit, the
unspent grants and the credit in flight add up to the window, and `pending`
lists exactly the registered legs with an open demand, each once. Every method
keeps it, and so does every grant of the distribution loop; a callback that
re-enters the pool therefore starts from a conserved pool and leaves one. The
potential of `Scripted` bounds the grants of one distribution, so the loop
runs until nothing is grantable.
-/

namespace HyperDht.Private

namespace Pool

variable {ω : Type} [DecidableEq ω]

def granted (p : Pool ω) : Nat := p.legs.total fun _ leg => leg.granted

/-- The demand of all legs that is not granted yet. -/
def wanted (p : Pool ω) : Nat := p.legs.total fun _ leg => leg.wanted

/-- `pending` holds the legs that want credit, each of them once. -/
structure Queued (p : Pool ω) : Prop where
  nodup : p.pending.Nodup
  mem_pending : ∀ ref, ref ∈ p.pending ↔
    ∃ leg, p.legs.get? ref.owner = some leg ∧ leg.serial = ref.serial ∧ 0 < leg.wanted

structure Conserved (p : Pool ω) : Prop extends Queued p where
  sum : p.available + p.granted + p.inFlight = circuitWindow
  bound : ∀ owner leg, p.legs.get? owner = some leg → leg.granted + leg.wanted ≤ circuitWindow

/-- No credit is available, or no leg waits for it. -/
def Settled (p : Pool ω) : Prop := p.available = 0 ∨ p.pending = []

omit [DecidableEq ω] in
theorem not_more_iff {p : Pool ω} : ¬ p.more ↔ p.Settled := by
  unfold more Settled
  by_cases h : p.pending = []
  · simp [h]
  · simp [h]

theorem conserved_new : (new : Pool ω).Conserved where
  sum := by simp [new, granted]
  nodup := List.nodup_nil
  mem_pending := by simp [new]
  bound := by simp [new]

theorem Conserved.congr {p q : Pool ω} (h : p.Conserved) (ha : q.available = p.available)
    (hi : q.inFlight = p.inFlight) (hl : q.legs = p.legs) (hp : q.pending = p.pending) :
    q.Conserved where
  sum := by rw [granted, ha, hi, hl]; exact h.sum
  nodup := by rw [hp]; exact h.nodup
  mem_pending ref := by rw [hp, hl]; exact h.mem_pending ref
  bound owner leg hg := h.bound owner leg (by rwa [hl] at hg)

theorem granted_set {p : Pool ω} {owner : ω} {leg : Leg} (leg' : Leg)
    (hg : p.legs.get? owner = some leg) :
    (p.legs.set owner leg').total (fun _ l => l.granted) + leg.granted =
      p.granted + leg'.granted :=
  JsMap.total_set hg leg' fun _ l => l.granted

theorem wanted_set {p : Pool ω} {owner : ω} {leg : Leg} (leg' : Leg)
    (hg : p.legs.get? owner = some leg) :
    (p.legs.set owner leg').total (fun _ l => l.wanted) + leg.wanted = p.wanted + leg'.wanted :=
  JsMap.total_set hg leg' fun _ l => l.wanted

/-- A pool whose leg of `owner` changes only in its grant, with the sum made
up by the other two counters. -/
theorem Conserved.setLeg {p : Pool ω} (h : p.Conserved) {owner : ω} {leg leg' : Leg}
    (hg : p.legs.get? owner = some leg) (hs : leg'.serial = leg.serial)
    (hw : leg'.wanted = leg.wanted) (hle : leg'.granted ≤ leg.granted) {av inf : Nat}
    (hsum : av + leg'.granted + inf = p.available + leg.granted + p.inFlight) :
    Conserved { p with legs := p.legs.set owner leg', available := av, inFlight := inf } where
  sum := by
    have h1 := h.sum
    have h2 := granted_set leg' hg
    simp only [granted] at h1 h2 ⊢
    omega
  nodup := h.nodup
  mem_pending ref := by
    rw [h.mem_pending ref]
    by_cases e : ref.owner = owner
    · subst e
      simp [hg, hs, hw]
    · simp [JsMap.get?_set_ne _ _ e]
  bound o l ho := by
    by_cases e : o = owner
    · subst e
      simp only [JsMap.get?_set_self, Option.some.injEq] at ho
      subst ho
      have := h.bound o leg hg
      omega
    · rw [JsMap.get?_set_ne _ _ e] at ho
      exact h.bound o l ho

/-! ## The methods -/

theorem add_cases {p q : Pool ω} {owner : ω} (hq : p.add owner = .ok q) :
    p.legs.get? owner = none ∧ p.legs.size < maxRouteStreams ∧
      q = { p with
        legs := p.legs.set owner ⟨p.nextSerial, 0, 0, false, 0, demandProgress, 0, false⟩
        nextSerial := p.nextSerial + 1 } := by
  unfold add at hq
  split at hq
  · cases hq
  next hc =>
  simp only [not_or, JsMap.has, Bool.not_eq_true, Option.isSome_eq_false_iff, Option.isNone_iff_eq_none] at hc
  cases hq
  exact ⟨hc.2.2, by omega, rfl⟩

theorem conserved_add {p q : Pool ω} {owner : ω} (h : p.Conserved) (hq : p.add owner = .ok q) :
    q.Conserved ∧ q.wanted = p.wanted := by
  obtain ⟨hnone, -, rfl⟩ := add_cases hq
  refine ⟨⟨⟨h.nodup, fun ref => ?_⟩, ?_, fun o l ho => ?_⟩, ?_⟩
  · rw [h.mem_pending ref]
    by_cases e : ref.owner = owner
    · simp [e, hnone]
    · simp [JsMap.get?_set_ne _ _ e]
  · have := h.sum
    simp only [granted, JsMap.total_set_new hnone] at this ⊢
    omega
  · by_cases e : o = owner
    · subst e
      simp only [JsMap.get?_set_self, Option.some.injEq] at ho
      subst ho
      simp
    · rw [JsMap.get?_set_ne _ _ e] at ho
      exact h.bound o l ho
  · simp [wanted, JsMap.total_set_new hnone]

theorem cancel_of_none {p : Pool ω} {owner : ω} (hg : p.legs.get? owner = none) :
    p.cancel owner = p := by
  simp [cancel, hg]

theorem cancel_of_some {p : Pool ω} {owner : ω} {leg : Leg} (hg : p.legs.get? owner = some leg) :
    p.cancel owner = { p with
      legs := p.legs.set owner { leg with wanted := 0, demandOpen := false }
      pending := p.pending.filter fun r => r ≠ ⟨owner, leg.serial⟩ } := by
  simp [cancel, hg]

theorem conserved_cancel {p : Pool ω} (h : p.Conserved) (owner : ω) :
    (p.cancel owner).Conserved ∧ (p.cancel owner).wanted ≤ p.wanted := by
  cases hg : p.legs.get? owner with
  | none => rw [cancel_of_none hg]; exact ⟨h, le_rfl⟩
  | some leg =>
    rw [cancel_of_some hg]
    refine ⟨⟨⟨h.nodup.filter _, fun ref => ?_⟩, ?_, fun o l ho => ?_⟩, ?_⟩
    · obtain ⟨o, s⟩ := ref
      simp only [List.mem_filter, h.mem_pending, decide_eq_true_eq]
      by_cases e : o = owner
      · subst e
        simp only [hg, JsMap.get?_set_self, Option.some.injEq, exists_eq_left']
        constructor
        · rintro ⟨⟨h1, -⟩, h2⟩; exact absurd (by rw [h1]) h2
        · rintro ⟨-, h0⟩; exact absurd h0 (by simp)
      · simp [JsMap.get?_set_ne _ _ e, e]
    · have h1 := h.sum
      have h2 := granted_set { leg with wanted := 0, demandOpen := false } hg
      simp only [granted] at h1 h2 ⊢
      omega
    · by_cases e : o = owner
      · subst e
        simp only [JsMap.get?_set_self, Option.some.injEq] at ho
        subst ho
        have := h.bound o leg hg
        simp only at this ⊢
        omega
      · rw [JsMap.get?_set_ne _ _ e] at ho
        exact h.bound o l ho
    · have := wanted_set { leg with wanted := 0, demandOpen := false } hg
      simp only [wanted] at this ⊢
      omega

theorem demand_cases {p q : Pool ω} {owner : ω} {amount : Int} {limited : Bool} {now : Int}
    {b : Bool} (hq : p.demand owner amount limited now = .ok (q, b)) :
    ∃ leg, p.legs.get? owner = some leg ∧ p.closed = false ∧
      ((amount = 0 ∧ leg.demandOpen = true ∧ q = p.cancel owner ∧ b = false) ∨
       (0 < amount ∧ leg.wanted = 0 ∧ leg.granted + amount.toNat ≤ circuitWindow ∧
        (limited = true → demandProgress ≤ leg.progress ∨
          creditIdleMs ≤ now - leg.lastDemandAt) ∧
        q = { p with
          legs := p.legs.set owner { leg with
            lastDemandAt := now
            progress := leg.progress - demandProgress
            demandOpen := true
            wanted := amount.toNat }
          pending := p.pending ++ [⟨owner, leg.serial⟩] } ∧ b = true)) := by
  unfold demand at hq
  split at hq
  · cases hq
  next leg hg =>
  refine ⟨leg, hg, ?_⟩
  split at hq
  · cases hq
  next hc =>
  simp only [not_or, not_lt, Bool.not_eq_true] at hc
  refine ⟨hc.1, ?_⟩
  split at hq
  · next h0 =>
    split at hq
    · next hd => cases hq; exact .inl ⟨h0, hd, rfl, rfl⟩
    · cases hq
  next h0 =>
  split at hq
  · cases hq
  next hw =>
  split at hq
  · cases hq
  next ho =>
  split at hq
  · cases hq
  next hr =>
  cases hq
  refine .inr ⟨by omega, not_not.mp hw, not_lt.mp ho, fun hl => ?_, rfl, rfl⟩
  by_contra hcon
  simp only [not_or, not_le] at hcon
  exact hr ⟨hl, hcon.1, hcon.2⟩

theorem demand_ok {p : Pool ω} {owner : ω} {leg : Leg} {amount : Nat} {limited : Bool} {now : Int}
    (hg : p.legs.get? owner = some leg) (hc : p.closed = false) (hpos : 0 < amount)
    (hw : leg.wanted = 0) (hle : leg.granted + amount ≤ circuitWindow)
    (hrate : limited = true → demandProgress ≤ leg.progress ∨
      creditIdleMs ≤ now - leg.lastDemandAt) :
    ∃ q, p.demand owner amount limited now = .ok (q, true) := by
  unfold demand
  rw [hg]
  dsimp only
  rw [if_neg (by rw [hc]; simp; omega), if_neg (by omega), if_neg (by simp [hw]),
    if_neg (by simp; omega), if_neg ?_]
  · exact ⟨_, rfl⟩
  · rintro ⟨hl, hp, ht⟩
    rcases hrate hl with h | h
    · omega
    · omega

theorem conserved_demand {p q : Pool ω} {owner : ω} {amount : Int} {limited : Bool} {now : Int}
    {b : Bool} (h : p.Conserved) (hq : p.demand owner amount limited now = .ok (q, b)) :
    q.Conserved ∧ q.wanted ≤ p.wanted + circuitWindow := by
  obtain ⟨leg, hg, -, ⟨-, -, rfl, -⟩ | ⟨hpos, hw, hle, -, rfl, -⟩⟩ := demand_cases hq
  · have := conserved_cancel h owner
    exact ⟨this.1, by omega⟩
  have hnot : (⟨owner, leg.serial⟩ : LegRef ω) ∉ p.pending := by
    rw [h.mem_pending]
    rintro ⟨l, hl, -, h0⟩
    rw [hg] at hl
    cases hl
    omega
  refine ⟨⟨⟨?_, fun ref => ?_⟩, ?_, fun o l ho => ?_⟩, ?_⟩
  · simpa using List.Nodup.concat hnot h.nodup
  · obtain ⟨o, s⟩ := ref
    simp only [List.mem_append, List.mem_singleton, h.mem_pending, LegRef.mk.injEq]
    by_cases e : o = owner
    · subst e
      simp only [hg, JsMap.get?_set_self, Option.some.injEq, exists_eq_left', true_and]
      constructor
      · rintro (⟨-, h0⟩ | rfl)
        · omega
        · exact ⟨rfl, by omega⟩
      · rintro ⟨rfl, -⟩; exact .inr rfl
    · simp [JsMap.get?_set_ne _ _ e, e]
  · have h1 := h.sum
    have h2 := granted_set { leg with
      lastDemandAt := now, progress := leg.progress - demandProgress, demandOpen := true,
      wanted := amount.toNat } hg
    simp only [granted] at h1 h2 ⊢
    omega
  · by_cases e : o = owner
    · subst e
      simp only [JsMap.get?_set_self, Option.some.injEq] at ho
      subst ho
      exact hle
    · rw [JsMap.get?_set_ne _ _ e] at ho
      exact h.bound o l ho
  · have := wanted_set { leg with
      lastDemandAt := now, progress := leg.progress - demandProgress, demandOpen := true,
      wanted := amount.toNat } hg
    simp only [wanted] at this ⊢
    omega

theorem sent_cases {p q : Pool ω} {owner : ω} {amount now : Int}
    (hq : p.sent owner amount now = .ok q) :
    ∃ leg, p.legs.get? owner = some leg ∧ p.closed = false ∧ 1 ≤ amount ∧
      amount.toNat ≤ leg.granted ∧
      q = { p with
        legs := p.legs.set owner { leg with
          granted := leg.granted - amount.toNat
          progress := min (2 * demandProgress) (leg.progress + amount.toNat)
          lastActivity := now
          idleTimer := leg.idleTimer && leg.granted - amount.toNat != 0 }
        inFlight := p.inFlight + amount.toNat } := by
  unfold sent at hq
  split at hq
  · cases hq
  next leg hg =>
  split at hq
  · cases hq
  next hc =>
  simp only [not_or, not_lt, Bool.not_eq_true] at hc
  cases hq
  exact ⟨leg, hg, hc.1, hc.2.1, by omega, rfl⟩

theorem sent_ok {p : Pool ω} {owner : ω} {leg : Leg} (hg : p.legs.get? owner = some leg)
    (hc : p.closed = false) (hle : 1 ≤ leg.granted) (now : Int) :
    ∃ q, p.sent owner 1 now = .ok q := by
  unfold sent
  rw [hg]
  dsimp only
  rw [if_neg (by rw [hc]; simp; omega)]
  exact ⟨_, rfl⟩

theorem conserved_sent {p q : Pool ω} {owner : ω} {amount now : Int} (h : p.Conserved)
    (hq : p.sent owner amount now = .ok q) : q.Conserved ∧ q.wanted = p.wanted := by
  obtain ⟨leg, hg, -, -, hle, rfl⟩ := sent_cases hq
  refine ⟨?_, ?_⟩
  · apply h.setLeg hg
    · rfl
    · rfl
    · exact Nat.sub_le ..
    · simp only
      omega
  have := wanted_set { leg with
    granted := leg.granted - amount.toNat,
    progress := min (2 * demandProgress) (leg.progress + amount.toNat), lastActivity := now,
    idleTimer := leg.idleTimer && leg.granted - amount.toNat != 0 } hg
  simp only [wanted] at this ⊢
  omega

/-- `q` is `p` up to the activity times and idle timers of its legs. -/
structure Alike (p q : Pool ω) : Prop where
  pool : p.Conserved → q.Conserved
  closed : q.closed = p.closed
  inFlight : q.inFlight = p.inFlight
  wanted : q.wanted = p.wanted
  none : ∀ o, p.legs.get? o = none → q.legs.get? o = none
  some : ∀ o leg, p.legs.get? o = some leg → ∃ leg', q.legs.get? o = some leg' ∧
    leg' = { leg with lastActivity := leg'.lastActivity, idleTimer := leg'.idleTimer }

theorem Alike.refl (p : Pool ω) : Alike p p :=
  ⟨fun h => h, rfl, rfl, rfl, fun _ h => h, fun _ leg h => ⟨leg, h, rfl⟩⟩

/-- The activity time or the idle timer of one leg changes. -/
theorem alike_set {p : Pool ω} {owner : ω} {leg leg' : Leg} (hg : p.legs.get? owner = some leg)
    (hl : leg' = { leg with lastActivity := leg'.lastActivity, idleTimer := leg'.idleTimer }) :
    Alike p { p with legs := p.legs.set owner leg' } := by
  have hgr : leg'.granted = leg.granted := by rw [hl]
  have hwa : leg'.wanted = leg.wanted := by rw [hl]
  refine ⟨fun h => ?_, rfl, rfl, ?_, fun o hn => ?_, fun o leg₀ h₀ => ?_⟩
  · exact h.setLeg hg (by rw [hl]) hwa hgr.le (by rw [hgr])
  · have := wanted_set leg' hg
    simp only [wanted] at this ⊢
    omega
  · have hne : o ≠ owner := by
      rintro rfl
      exact absurd (hg.symm.trans hn) (by simp)
    exact (JsMap.get?_set_ne _ _ hne).trans hn
  · by_cases he : o = owner
    · subst he
      obtain rfl := Option.some.inj (hg.symm.trans h₀)
      exact ⟨leg', JsMap.get?_set_self _ _ _, hl⟩
    · exact ⟨leg₀, (JsMap.get?_set_ne _ _ he).trans h₀, rfl⟩

theorem alike_touch (p : Pool ω) (owner : ω) (now : Int) : Alike p (p.touch owner now) := by
  unfold touch
  split
  · exact .refl p
  · next leg hg =>
    split
    · exact alike_set hg rfl
    · exact .refl p

theorem alike_idleFired (p : Pool ω) (owner : ω) (busy : Bool) (now : Int) :
    Alike p (p.idleFired owner busy now).1 := by
  unfold idleFired
  split
  · exact .refl p
  · next leg hg =>
    split
    · exact alike_set hg rfl
    · split
      · exact alike_set hg rfl
      · split
        · exact alike_set hg rfl
        · exact alike_set hg rfl

theorem Alike.exists_iff {p q : Pool ω} (h : Alike p q) (o : ω) :
    (∃ leg, q.legs.get? o = Option.some leg) ↔ ∃ leg, p.legs.get? o = Option.some leg := by
  constructor
  · rintro ⟨leg', hl'⟩
    cases hl : p.legs.get? o with
    | none => exact absurd ((h.none o hl).symm.trans hl') (by simp)
    | some leg => exact ⟨leg, rfl⟩
  · rintro ⟨leg, hl⟩
    obtain ⟨leg', hl', -⟩ := h.some o leg hl
    exact ⟨leg', hl'⟩

omit [DecidableEq ω] in
theorem returned_cases {p q : Pool ω} {amount : Int} (hq : p.returned amount = .ok q) :
    p.closed = false ∧ 1 ≤ amount ∧ amount.toNat ≤ p.inFlight ∧
      q = { p with
        inFlight := p.inFlight - amount.toNat
        available := p.available + amount.toNat } := by
  unfold returned at hq
  split at hq
  · cases hq
  next hc =>
  simp only [not_or, not_lt, Bool.not_eq_true] at hc
  cases hq
  exact ⟨hc.1, hc.2.1, by omega, rfl⟩

omit [DecidableEq ω] in
theorem returned_ok {p : Pool ω} {amount : Nat} (hc : p.closed = false) (hpos : 0 < amount)
    (hle : amount ≤ p.inFlight) : ∃ q, p.returned amount = .ok q := by
  unfold returned
  rw [if_neg (by rw [hc]; simp; omega)]
  exact ⟨_, rfl⟩

theorem conserved_returned {p q : Pool ω} {amount : Int} (h : p.Conserved)
    (hq : p.returned amount = .ok q) : q.Conserved ∧ q.wanted = p.wanted := by
  obtain ⟨-, -, hle, rfl⟩ := returned_cases hq
  refine ⟨⟨⟨h.nodup, h.mem_pending⟩, ?_, h.bound⟩, rfl⟩
  have := h.sum
  simp only [granted] at this ⊢
  omega

theorem release_cases {p q : Pool ω} {owner : ω} {amount : Int}
    (hq : p.release owner amount = .ok q) :
    ∃ leg, p.legs.get? owner = some leg ∧ p.closed = false ∧ 1 ≤ amount ∧
      amount.toNat ≤ leg.granted ∧
      q = { p with
        legs := p.legs.set owner { leg with
          granted := leg.granted - amount.toNat
          idleTimer := leg.idleTimer && leg.granted - amount.toNat != 0 }
        available := p.available + amount.toNat } := by
  unfold release at hq
  split at hq
  · cases hq
  next leg hg =>
  split at hq
  · cases hq
  next hc =>
  simp only [not_or, not_lt, Bool.not_eq_true] at hc
  cases hq
  exact ⟨leg, hg, hc.1, hc.2.1, by omega, rfl⟩

theorem release_ok {p : Pool ω} {owner : ω} {leg : Leg} {amount : Nat}
    (hg : p.legs.get? owner = some leg) (hc : p.closed = false) (hpos : 0 < amount)
    (hle : amount ≤ leg.granted) : ∃ q, p.release owner amount = .ok q := by
  unfold release
  rw [hg]
  dsimp only
  rw [if_neg (by rw [hc]; simp; omega)]
  exact ⟨_, rfl⟩

theorem conserved_release {p q : Pool ω} {owner : ω} {amount : Int} (h : p.Conserved)
    (hq : p.release owner amount = .ok q) : q.Conserved ∧ q.wanted = p.wanted := by
  obtain ⟨leg, hg, -, -, hle, rfl⟩ := release_cases hq
  refine ⟨?_, ?_⟩
  · apply h.setLeg hg
    · rfl
    · rfl
    · exact Nat.sub_le ..
    · simp only
      omega
  have := wanted_set { leg with
    granted := leg.granted - amount.toNat,
    idleTimer := leg.idleTimer && leg.granted - amount.toNat != 0 } hg
  simp only [wanted] at this ⊢
  omega

theorem remove_of_none {p : Pool ω} {owner : ω} (hg : p.legs.get? owner = none) :
    p.remove owner = (p, false) := by
  simp [remove, hg]

theorem remove_of_some {p : Pool ω} {owner : ω} {leg : Leg} (hg : p.legs.get? owner = some leg) :
    p.remove owner = ({ p.cancel owner with
      legs := (p.cancel owner).legs.delete owner
      available := p.available + leg.granted }, true) := by
  simp [remove, hg, cancel_of_some hg]

theorem remove_frame {p : Pool ω} {owner : ω} {leg : Leg} (h : p.legs.get? owner = some leg) :
    (p.remove owner).2 = true ∧ (p.remove owner).1.inFlight = p.inFlight ∧
    (p.remove owner).1.closed = p.closed ∧ (p.remove owner).1.distributing = p.distributing ∧
    ∀ o, (p.remove owner).1.legs.get? o = if o = owner then none else p.legs.get? o := by
  rw [remove_of_some h, cancel_of_some h]
  refine ⟨rfl, rfl, rfl, rfl, fun o => ?_⟩
  rw [JsMap.get?_delete]
  split
  · rfl
  · next hne => rw [JsMap.get?_set_ne _ _ hne]

theorem conserved_remove {p : Pool ω} (h : p.Conserved) (owner : ω) :
    (p.remove owner).1.Conserved ∧ (p.remove owner).1.wanted ≤ p.wanted := by
  cases hg : p.legs.get? owner with
  | none => rw [remove_of_none hg]; exact ⟨h, le_rfl⟩
  | some leg =>
    have hc := conserved_cancel h owner
    have hgc : (p.cancel owner).legs.get? owner = some { leg with wanted := 0, demandOpen := false } := by
      simp [cancel_of_some hg]
    rw [remove_of_some hg]
    refine ⟨⟨⟨hc.1.nodup, fun ref => ?_⟩, ?_, fun o l ho => ?_⟩, ?_⟩
    · rw [hc.1.mem_pending]
      by_cases e : ref.owner = owner
      · simp [e, hgc]
      · simp [JsMap.get?_delete_ne _ e]
    · have h1 := hc.1.sum
      have h2 := JsMap.total_delete hgc fun _ l => l.granted
      have h3 : (p.cancel owner).available = p.available := by simp [cancel_of_some hg]
      simp only [granted] at h1 h2 ⊢
      omega
    · by_cases e : o = owner
      · simp [e] at ho
      · rw [JsMap.get?_delete_ne _ e] at ho
        exact hc.1.bound o l ho
    · have h1 := JsMap.total_delete hgc fun _ l => l.wanted
      have h2 := hc.2
      simp only [wanted] at h1 h2 ⊢
      omega

/-! ## A grant -/

/-- The conditions under which the loop grants `amount` cells to the leg at
the front of `pending`. -/
structure Grantable (p : Pool ω) (ref : LegRef ω) (rest : List (LegRef ω)) (leg : Leg)
    (amount : Nat) : Prop where
  head : p.pending = ref :: rest
  registered : p.legs.get? ref.owner = some leg
  serial : leg.serial = ref.serial
  pos : 0 < amount
  le_wanted : amount ≤ leg.wanted
  le_available : amount ≤ p.available

/-- While `pending` is exact every pass of the inner loop grants. -/
theorem grantNext_of_more {p : Pool ω} (h : p.Queued) (hm : p.more) {share : Nat}
    (hs : 1 ≤ share) (now : Int) :
    ∃ ref rest leg amount, p.Grantable ref rest leg amount ∧
      amount = min share (min leg.wanted p.available) ∧
      p.grantNext share now = (p.grant ref rest leg amount now, some (ref.owner, amount)) := by
  obtain ⟨hav, hne⟩ := hm
  obtain ⟨ref, rest, hp⟩ := List.exists_cons_of_ne_nil hne
  obtain ⟨leg, hg, hser, hw⟩ := (h.mem_pending ref).mp (by rw [hp]; exact List.mem_cons_self)
  refine ⟨ref, rest, leg, min share (min leg.wanted p.available),
    ⟨hp, hg, hser, by omega, by omega, by omega⟩, rfl, ?_⟩
  simp only [grantNext, hp, hg]
  rw [if_neg (by simp [hser]; omega)]

theorem queued_grant {p : Pool ω} (h : p.Queued) {ref : LegRef ω} {rest : List (LegRef ω)}
    {leg : Leg} {amount : Nat} (hg : p.Grantable ref rest leg amount) (now : Int) :
    (p.grant ref rest leg amount now).Queued := by
  obtain ⟨o, s⟩ := ref
  obtain ⟨hp, hl, hs, hpos, hw, hav⟩ := hg
  simp only at hl hs
  have hnd := h.nodup
  rw [hp] at hnd
  obtain ⟨hnot, hnd⟩ := List.nodup_cons.mp hnd
  -- Entries of `rest` are the pending legs other than the one granted.
  have hrest : ∀ r, r ∈ rest ↔ r ≠ ⟨o, s⟩ ∧
      ∃ l, p.legs.get? r.owner = some l ∧ l.serial = r.serial ∧ 0 < l.wanted := by
    intro r
    rw [← h.mem_pending, hp, List.mem_cons]
    constructor
    · intro hr; exact ⟨fun e => hnot (e ▸ hr), .inr hr⟩
    · rintro ⟨hne, rfl | hr⟩
      · exact absurd rfl hne
      · exact hr
  refine ⟨?_, fun r => ?_⟩
  · simp only [grant]
    split
    · simpa using List.Nodup.concat hnot hnd
    · exact hnd
  · obtain ⟨o', s'⟩ := r
    simp only [grant]
    by_cases e : o' = o
    · subst e
      simp only [JsMap.get?_set_self, Option.some.injEq, exists_eq_left']
      split
      · next hrem =>
        simp only [List.mem_append, List.mem_singleton, hrest, hl, Option.some.injEq,
          exists_eq_left', ne_eq, LegRef.mk.injEq, true_and]
        constructor
        · rintro (⟨hne, he, -⟩ | rfl)
          · exact absurd (he.symm.trans hs) hne
          · exact ⟨hs, hrem⟩
        · rintro ⟨he, -⟩; exact .inr (he.symm.trans hs)
      · next hrem =>
        simp only [hrest, hl, Option.some.injEq, exists_eq_left', ne_eq, LegRef.mk.injEq, true_and]
        constructor
        · rintro ⟨hne, he, -⟩; exact absurd (he.symm.trans hs) hne
        · rintro ⟨-, h0⟩; exact absurd h0 hrem
    · simp only [JsMap.get?_set_ne _ _ e]
      split
      · simp [hrest, e]
      · simp [hrest, e]

theorem grant_sums {p : Pool ω} {ref : LegRef ω} {rest : List (LegRef ω)} {leg : Leg}
    {amount : Nat} (hg : p.Grantable ref rest leg amount) (now : Int) :
    (p.grant ref rest leg amount now).wanted + amount = p.wanted ∧
      (p.grant ref rest leg amount now).granted = p.granted + amount ∧
      (p.grant ref rest leg amount now).available + amount = p.available := by
  have hw := wanted_set { leg with
    granted := leg.granted + amount, wanted := leg.wanted - amount, lastActivity := now,
    idleTimer := true } hg.registered
  have hgr := granted_set { leg with
    granted := leg.granted + amount, wanted := leg.wanted - amount, lastActivity := now,
    idleTimer := true } hg.registered
  have h1 := hg.le_wanted
  have h2 := hg.le_available
  simp only [grant, wanted, granted] at hw hgr ⊢
  omega

theorem conserved_grant {p : Pool ω} (h : p.Conserved) {ref : LegRef ω} {rest : List (LegRef ω)}
    {leg : Leg} {amount : Nat} (hg : p.Grantable ref rest leg amount) (now : Int) :
    (p.grant ref rest leg amount now).Conserved ∧
      (p.grant ref rest leg amount now).wanted + amount = p.wanted := by
  obtain ⟨hwanted, hgranted, havailable⟩ := grant_sums hg now
  refine ⟨⟨queued_grant h.toQueued hg now, ?_, fun o l ho => ?_⟩, hwanted⟩
  · have h1 := h.sum
    have h2 : (p.grant ref rest leg amount now).inFlight = p.inFlight := rfl
    omega
  · simp only [grant] at ho
    by_cases e : o = ref.owner
    · subst e
      simp only [JsMap.get?_set_self, Option.some.injEq] at ho
      subst ho
      have := h.bound ref.owner leg hg.registered
      have := hg.le_wanted
      simp only
      omega
    · rw [JsMap.get?_set_ne _ _ e] at ho
      exact h.bound o l ho

end Pool

/-! ## The distribution loop -/

namespace Host

variable {ω σ : Type} [DecidableEq ω]

/-- `P` gives a conserved pool wherever the loop goes on, and every grant with
its callback keeps `P`. -/
structure Keeps (H : Host ω σ) (P : σ → Prop) (now : Int) : Prop where
  conserved : ∀ s, P s → (H.pool s).more → (H.pool s).Conserved
  grant : ∀ s ref rest leg amount, P s → (H.pool s).Grantable ref rest leg amount →
    P (H.onGrant ref.owner amount (H.setPool s ((H.pool s).grant ref rest leg amount now))).1

/-- Every grant with its callback lowers the potential `Φ`. -/
def Lowers (H : Host ω σ) (P : σ → Prop) (Φ : σ → Nat) (now : Int) : Prop :=
  ∀ s ref rest leg amount, P s → (H.pool s).Grantable ref rest leg amount →
    Φ (H.onGrant ref.owner amount (H.setPool s ((H.pool s).grant ref rest leg amount now))).1 < Φ s

variable {H : Host ω σ} {P : σ → Prop} {Φ : σ → Nat} {now : Int}

/-- One pass of the inner loop: it stops, or grants and runs the callback. -/
theorem round_succ (hk : H.Keeps P now) {share : Nat} (hs : 1 ≤ share) (n : Nat) {s : σ}
    (h : P s) :
    (¬ (H.pool s).more ∧ H.round share now (n + 1) s = (s, false)) ∨
    ∃ ref rest leg amount, (H.pool s).Grantable ref rest leg amount ∧
      (H.pool s).more ∧
      H.round share now (n + 1) s =
        match H.onGrant ref.owner amount (H.setPool s ((H.pool s).grant ref rest leg amount now)) with
        | (s', true) => (s', true)
        | (s', false) => H.round share now n s' := by
  by_cases hm : (H.pool s).more
  · obtain ⟨ref, rest, leg, amount, hg, -, he⟩ :=
      Pool.grantNext_of_more (hk.conserved s h hm).toQueued hm hs now
    refine .inr ⟨ref, rest, leg, amount, hg, hm, ?_⟩
    rw [round, if_pos hm]
    exact he ▸ rfl
  · exact .inl ⟨hm, by rw [round, if_neg hm]⟩

theorem round_keeps (hk : H.Keeps P now) {share : Nat} (hs : 1 ≤ share) :
    ∀ (n : Nat) {s : σ}, P s → P (H.round share now n s).1 := by
  intro n
  induction n with
  | zero => intro s h; exact h
  | succ n ih =>
    intro s h
    rcases round_succ hk hs n h with ⟨-, e⟩ | ⟨ref, rest, leg, amount, hg, -, e⟩
    · rw [e]; exact h
    · have hstep := hk.grant s ref rest leg amount h hg
      rw [e]
      split
      · next s' he => rw [he] at hstep; exact hstep
      · next s' he => rw [he] at hstep; exact ih hstep

theorem round_lowers (hk : H.Keeps P now) (hl : H.Lowers P Φ now) {share : Nat} (hs : 1 ≤ share) :
    ∀ (n : Nat) {s : σ}, P s → Φ (H.round share now n s).1 ≤ Φ s ∧
      (0 < n → (H.pool s).more → Φ (H.round share now n s).1 < Φ s) := by
  intro n
  induction n with
  | zero => intro s _; exact ⟨le_rfl, fun h0 => absurd h0 (lt_irrefl 0)⟩
  | succ n ih =>
    intro s h
    rcases round_succ hk hs n h with ⟨hm, e⟩ | ⟨ref, rest, leg, amount, hg, -, e⟩
    · rw [e]; exact ⟨le_rfl, fun _ hm' => absurd hm' hm⟩
    · have hstep := hk.grant s ref rest leg amount h hg
      have hlow := hl s ref rest leg amount h hg
      have key : Φ (H.round share now (n + 1) s).1 < Φ s := by
        rw [e]
        split
        · next s' he => rw [he] at hlow; exact hlow
        · next s' he =>
          rw [he] at hlow hstep
          exact lt_of_le_of_lt (ih hstep).1 hlow
      exact ⟨key.le, fun _ _ => key⟩

theorem rounds_keeps (hk : H.Keeps P now) :
    ∀ (fuel : Nat) {s : σ}, P s → P (H.rounds now fuel s).1 := by
  intro fuel
  induction fuel with
  | zero => intro s h; exact h
  | succ fuel ih =>
    intro s h
    rw [rounds]
    split
    · have hr := round_keeps hk (le_max_left 1 ((H.pool s).available / (H.pool s).pending.length))
        (H.pool s).pending.length h
      simp only
      split
      · next s' he => rw [he] at hr; exact hr
      · next s' he => rw [he] at hr; exact ih hr
    · exact h

/-- With more fuel than potential the outer loop ends because nothing is
grantable any more, unless a callback threw. -/
theorem rounds_settled (hk : H.Keeps P now) (hl : H.Lowers P Φ now) :
    ∀ (fuel : Nat) {s : σ}, P s → Φ s < fuel → (H.rounds now fuel s).2 = false →
      (H.pool (H.rounds now fuel s).1).Settled := by
  intro fuel
  induction fuel with
  | zero => intro s _ h0; exact absurd h0 (Nat.not_lt_zero _)
  | succ fuel ih =>
    intro s h hf
    rw [rounds]
    split
    · next hm =>
      have hs := le_max_left 1 ((H.pool s).available / (H.pool s).pending.length)
      have hpos : 0 < (H.pool s).pending.length := List.length_pos_of_ne_nil hm.2
      have hr := round_keeps hk hs (H.pool s).pending.length h
      have hlow := (round_lowers hk hl hs (H.pool s).pending.length h).2 hpos hm
      simp only
      split
      · simp
      · next s' he =>
        rw [he] at hr hlow
        exact ih hr (lt_of_lt_of_le hlow (Nat.le_of_lt_succ hf))
    · next hm => intro _; exact Pool.not_more_iff.mp hm

/-- No callback throws after a grant in a state with `P`. -/
def Quiet (H : Host ω σ) (P : σ → Prop) (now : Int) : Prop :=
  ∀ s ref rest leg amount, P s → (H.pool s).Grantable ref rest leg amount →
    (H.onGrant ref.owner amount (H.setPool s ((H.pool s).grant ref rest leg amount now))).2 = false

theorem round_quiet (hk : H.Keeps P now) (hq : H.Quiet P now) {share : Nat} (hs : 1 ≤ share) :
    ∀ (n : Nat) {s : σ}, P s → (H.round share now n s).2 = false := by
  intro n
  induction n with
  | zero => intro s _; rfl
  | succ n ih =>
    intro s h
    rcases round_succ hk hs n h with ⟨-, e⟩ | ⟨ref, rest, leg, amount, hg, -, e⟩
    · rw [e]
    · have hstep := hk.grant s ref rest leg amount h hg
      have hflag := hq s ref rest leg amount h hg
      rw [e]
      split
      · next s' he => rw [he] at hflag; exact hflag
      · next s' he => rw [he] at hstep; exact ih hstep

/-- Callbacks that do not throw leave the loop by its conditions. -/
theorem rounds_quiet (hk : H.Keeps P now) (hq : H.Quiet P now) :
    ∀ (fuel : Nat) {s : σ}, P s → (H.rounds now fuel s).2 = false := by
  intro fuel
  induction fuel with
  | zero => intro s _; rfl
  | succ fuel ih =>
    intro s h
    rw [rounds]
    split
    · have hs := le_max_left 1 ((H.pool s).available / (H.pool s).pending.length)
      have hr := round_keeps hk hs (H.pool s).pending.length h
      have hflag := round_quiet hk hq hs (H.pool s).pending.length h
      simp only
      split
      · next s' he => rw [he] at hflag; exact hflag
      · next s' he => rw [he] at hr; exact ih hr
    · rfl

/-- `_distribute` returns at once, or runs its loop under `distributing`. -/
theorem distribute_cases (fuel : Nat) (s : σ) :
    ((H.pool s).closed = true ∨ (H.pool s).distributing = true) ∧
        H.distribute fuel now s = (s, false) ∨
      (H.pool s).closed = false ∧ (H.pool s).distributing = false ∧
        ∃ s' threw, H.rounds now fuel (H.setPool s { H.pool s with distributing := true }) =
            (s', threw) ∧
          H.distribute fuel now s =
            (H.setPool s' { H.pool s' with distributing := false }, threw) := by
  by_cases h : (H.pool s).closed = true ∨ (H.pool s).distributing = true
  · exact .inl ⟨h, by rw [distribute, if_pos h]⟩
  · refine .inr ?_
    have h' := h
    simp only [not_or, Bool.not_eq_true] at h'
    exact ⟨h'.1, h'.2, _, _, rfl, by rw [distribute, if_neg h]⟩

end Host

/-! ## Callbacks that re-enter the pool -/

inductive PoolCall (ω : Type) where
  | add (owner : ω)
  | demand (owner : ω) (amount : Int) (rateLimited : Bool)
  | sent (owner : ω) (amount : Int)
  | touch (owner : ω)
  | returned (amount : Int)
  | release (owner : ω) (amount : Int)
  | cancel (owner : ω)
  | remove (owner : ω)
  deriving DecidableEq, Repr

namespace Pool

variable {ω : Type} [DecidableEq ω]

/-- A method call up to its `_distribute`; the flag says whether it has one. -/
def call (p : Pool ω) (now : Int) : PoolCall ω → Except PoolFault (Pool ω × Bool)
  | .add owner => (p.add owner).map (·, false)
  | .demand owner amount rateLimited => p.demand owner amount rateLimited now
  | .sent owner amount => (p.sent owner amount now).map (·, false)
  | .touch owner => .ok (p.touch owner now, false)
  | .returned amount => (p.returned amount).map (·, true)
  | .release owner amount => (p.release owner amount).map (·, true)
  | .cancel owner => .ok (p.cancel owner, false)
  | .remove owner => .ok (p.remove owner)

theorem map_eq_ok {α β : Type} {f : α → β} {x : Except PoolFault α} {y : β}
    (h : x.map f = .ok y) : ∃ a, x = .ok a ∧ f a = y := by
  cases x with
  | error e => cases h
  | ok a => cases h; exact ⟨a, rfl, rfl⟩

theorem conserved_call {p q : Pool ω} {now : Int} {c : PoolCall ω} {b : Bool} (h : p.Conserved)
    (hq : p.call now c = .ok (q, b)) : q.Conserved ∧ q.wanted ≤ p.wanted + circuitWindow := by
  cases c with
  | add owner =>
    obtain ⟨p', e, he⟩ := map_eq_ok hq
    cases he
    have := conserved_add h e
    exact ⟨this.1, by omega⟩
  | demand owner amount limited => exact conserved_demand h hq
  | sent owner amount =>
    obtain ⟨p', e, he⟩ := map_eq_ok hq
    cases he
    have := conserved_sent h e
    exact ⟨this.1, by omega⟩
  | touch owner =>
    simp only [call, Except.ok.injEq, Prod.mk.injEq] at hq
    obtain ⟨rfl, -⟩ := hq
    have ha := alike_touch p owner now
    have := ha.wanted
    exact ⟨ha.pool h, by omega⟩
  | returned amount =>
    obtain ⟨p', e, he⟩ := map_eq_ok hq
    cases he
    have := conserved_returned h e
    exact ⟨this.1, by omega⟩
  | release owner amount =>
    obtain ⟨p', e, he⟩ := map_eq_ok hq
    cases he
    have := conserved_release h e
    exact ⟨this.1, by omega⟩
  | cancel owner =>
    simp only [call, Except.ok.injEq, Prod.mk.injEq] at hq
    obtain ⟨rfl, -⟩ := hq
    have := conserved_cancel h owner
    exact ⟨this.1, by omega⟩
  | remove owner =>
    simp only [call, Except.ok.injEq] at hq
    have := conserved_remove h owner
    rw [hq] at this
    simp only at this
    exact ⟨this.1, by omega⟩

/-- What every call leaves alone, and a call without `_distribute` also. -/
theorem call_frame {p q : Pool ω} {now : Int} {c : PoolCall ω} {b : Bool}
    (hq : p.call now c = .ok (q, b)) :
    q.closed = p.closed ∧ q.distributing = p.distributing ∧
      (b = false → p.Settled → q.Settled) := by
  have hcancel : ∀ owner, (p.cancel owner).closed = p.closed ∧
      (p.cancel owner).distributing = p.distributing ∧ (p.Settled → (p.cancel owner).Settled) := by
    intro owner
    cases hg : p.legs.get? owner with
    | none => rw [cancel_of_none hg]; exact ⟨rfl, rfl, id⟩
    | some leg =>
      rw [cancel_of_some hg]
      refine ⟨rfl, rfl, ?_⟩
      rintro (h | h)
      · exact .inl h
      · exact .inr (by simp [h])
  cases c with
  | add owner =>
    obtain ⟨p', e, he⟩ := map_eq_ok hq
    cases he
    obtain ⟨-, -, rfl⟩ := add_cases e
    exact ⟨rfl, rfl, fun _ h => h⟩
  | demand owner amount limited =>
    obtain ⟨leg, -, -, ⟨-, -, rfl, rfl⟩ | ⟨-, -, -, -, rfl, rfl⟩⟩ := demand_cases hq
    · obtain ⟨h1, h2, h3⟩ := hcancel owner
      exact ⟨h1, h2, fun _ => h3⟩
    · exact ⟨rfl, rfl, fun h => by cases h⟩
  | sent owner amount =>
    obtain ⟨p', e, he⟩ := map_eq_ok hq
    cases he
    obtain ⟨leg, -, -, -, -, rfl⟩ := sent_cases e
    exact ⟨rfl, rfl, fun _ h => h⟩
  | touch owner =>
    simp only [call, Except.ok.injEq, Prod.mk.injEq] at hq
    obtain ⟨rfl, rfl⟩ := hq
    unfold touch
    split
    · exact ⟨rfl, rfl, fun _ h => h⟩
    · split
      · exact ⟨rfl, rfl, fun _ h => h⟩
      · exact ⟨rfl, rfl, fun _ h => h⟩
  | returned amount =>
    obtain ⟨p', e, he⟩ := map_eq_ok hq
    cases he
    obtain ⟨-, -, -, rfl⟩ := returned_cases e
    exact ⟨rfl, rfl, fun h => by cases h⟩
  | release owner amount =>
    obtain ⟨p', e, he⟩ := map_eq_ok hq
    cases he
    obtain ⟨leg, -, -, -, -, rfl⟩ := release_cases e
    exact ⟨rfl, rfl, fun h => by cases h⟩
  | cancel owner =>
    simp only [call, Except.ok.injEq, Prod.mk.injEq] at hq
    obtain ⟨rfl, rfl⟩ := hq
    obtain ⟨h1, h2, h3⟩ := hcancel owner
    exact ⟨h1, h2, fun _ => h3⟩
  | remove owner =>
    simp only [call, Except.ok.injEq] at hq
    cases hg : p.legs.get? owner with
    | none =>
      rw [remove_of_none hg, Prod.mk.injEq] at hq
      obtain ⟨rfl, rfl⟩ := hq
      exact ⟨rfl, rfl, fun _ h => h⟩
    | some leg =>
      rw [remove_of_some hg, Prod.mk.injEq] at hq
      obtain ⟨rfl, rfl⟩ := hq
      obtain ⟨h1, h2, -⟩ := hcancel owner
      exact ⟨h1, h2, fun h => by cases h⟩

end Pool

/-- A call made inside a callback, at time `now`; the callback lets the
exception of a call through unless it is `caught`. -/
structure NestedCall (ω : Type) where
  call : PoolCall ω
  now : Int
  caught : Bool

/-- What one invocation of `onGrant` does: its calls, and whether it throws
after them. -/
structure Behaviour (ω : Type) where
  calls : List (NestedCall ω)
  throws : Bool

/-- A pool with what the coming invocations of its callback do, in order (an
invocation past the end does nothing), and the pools seen after each call made
inside a callback. Any callback that lets a call return behaves, during that
call, as one such list. -/
structure Scripted (ω : Type) where
  pool : Pool ω
  script : List (Behaviour ω)
  seen : List (Pool ω)

namespace Scripted

variable {ω : Type} [DecidableEq ω]

/-- The calls of one invocation. The `_distribute` a call ends with returns at
once, because the loop that invoked the callback holds `distributing`. -/
def nested : List (NestedCall ω) → Scripted ω → Scripted ω × Bool
  | [], s => (s, false)
  | c :: cs, s =>
    match s.pool.call c.now c.call with
    | .ok (p, _) => nested cs { s with pool := p, seen := s.seen ++ [p] }
    | .error _ =>
      let s' := { s with seen := s.seen ++ [s.pool] }
      if c.caught then nested cs s' else (s', true)

def onGrant (s : Scripted ω) : Scripted ω × Bool :=
  match s.script with
  | [] => (s, false)
  | b :: bs =>
    match nested b.calls { s with script := bs } with
    | (s', true) => (s', true)
    | (s', false) => (s', b.throws)

def host : Host ω (Scripted ω) where
  pool := Scripted.pool
  setPool s p := { s with pool := p }
  onGrant _ _ s := s.onGrant
  pool_setPool _ _ := rfl

/-- The calls the remaining script makes. -/
def callsLeft (s : Scripted ω) : Nat := (s.script.map fun b => b.calls.length).sum

/-- Each grant takes from the open demand, and each call of the script may add
a window to it. -/
def potential (s : Scripted ω) : Nat := s.pool.wanted + circuitWindow * s.callsLeft

/-- How a call of the pool ends. -/
inductive Outcome where
  | returned
  | thrown (fault : PoolFault)
  | callbackThrew
  deriving DecidableEq, Repr

/-- A method call from outside, `_distribute` included. -/
def call (s : Scripted ω) (now : Int) (c : PoolCall ω) : Scripted ω × Outcome :=
  match s.pool.call now c with
  | .error f => (s, .thrown f)
  | .ok (p, false) => ({ s with pool := p }, .returned)
  | .ok (p, true) =>
    let s' := { s with pool := p }
    match host.distribute (s'.potential + 1) now s' with
    | (s'', false) => (s'', .returned)
    | (s'', true) => (s'', .callbackThrew)

/-- A call from outside with what the callback does during it. -/
structure Event (ω : Type) where
  call : PoolCall ω
  now : Int
  script : List (Behaviour ω)

/-- A sequence of calls from outside: the pool after each of them with the
outcome, and every pool seen inside a callback. -/
def run (p : Pool ω) : List (Event ω) → List (Pool ω × Outcome) × List (Pool ω)
  | [] => ([], [])
  | e :: es =>
    let (s, o) := call ⟨p, e.script, []⟩ e.now e.call
    let (after, seen) := run s.pool es
    ((s.pool, o) :: after, s.seen ++ seen)

/-- The state of the loop: a live conserved pool, and conserved pools in every
callback so far. -/
structure Sound (s : Scripted ω) : Prop where
  pool : s.pool.Conserved
  live : s.pool.closed = false
  seen : ∀ p ∈ s.seen, p.Conserved

theorem Sound.see {s : Scripted ω} (h : s.Sound) {p : Pool ω} (hp : p.Conserved)
    (hc : p.closed = false) : Sound { s with pool := p, seen := s.seen ++ [p] } := by
  refine ⟨hp, hc, fun q hq => ?_⟩
  rcases List.mem_append.mp hq with hq | hq
  · exact h.seen q hq
  · rw [List.mem_singleton.mp hq]; exact hp

theorem nested_sound (cs : List (NestedCall ω)) : ∀ {s : Scripted ω}, s.Sound →
    (nested cs s).1.Sound ∧ (nested cs s).1.script = s.script ∧
      (nested cs s).1.pool.wanted ≤ s.pool.wanted + circuitWindow * cs.length := by
  induction cs with
  | nil => intro s h; exact ⟨h, rfl, by simp [nested]⟩
  | cons c cs ih =>
    intro s h
    rw [nested]
    split
    · next p b hc =>
      have hp := Pool.conserved_call h.pool hc
      obtain ⟨h1, h2, h3⟩ := ih (h.see hp.1 ((Pool.call_frame hc).1.trans h.live))
      refine ⟨h1, h2, ?_⟩
      simp only [List.length_cons, Nat.mul_add, Nat.mul_one] at h3 ⊢
      omega
    · have hs := h.see h.pool h.live
      simp only
      split
      · obtain ⟨h1, h2, h3⟩ := ih hs
        refine ⟨h1, h2, ?_⟩
        simp only [List.length_cons, Nat.mul_add, Nat.mul_one] at h3 ⊢
        omega
      · exact ⟨hs, rfl, by simp⟩

theorem onGrant_sound {s : Scripted ω} (h : s.Sound) :
    s.onGrant.1.Sound ∧ s.onGrant.1.potential ≤ s.potential := by
  unfold onGrant
  split
  · exact ⟨h, le_rfl⟩
  next b bs hb =>
  have hs : Sound { s with script := bs } := ⟨h.pool, h.live, h.seen⟩
  obtain ⟨h1, h2, h3⟩ := nested_sound b.calls hs
  have hpot : (nested b.calls { s with script := bs }).1.potential ≤ s.potential := by
    simp only [potential, callsLeft, h2, hb, List.map_cons, List.sum_cons, Nat.mul_add]
    simp only at h3
    omega
  split
  · next s' he => rw [he] at h1 hpot; exact ⟨h1, hpot⟩
  · next s' he => rw [he] at h1 hpot; exact ⟨h1, hpot⟩

theorem host_keeps (now : Int) : (host (ω := ω)).Keeps Sound now where
  conserved _ h _ := h.pool
  grant s ref rest leg amount h hg := by
    have hp := Pool.conserved_grant h.pool hg now
    exact (onGrant_sound (s := { s with pool := s.pool.grant ref rest leg amount now })
      ⟨hp.1, h.live, h.seen⟩).1

theorem host_lowers (now : Int) : (host (ω := ω)).Lowers Sound potential now := by
  intro s ref rest leg amount h hg
  have hp := Pool.conserved_grant h.pool hg now
  have hle := (onGrant_sound (s := { s with pool := s.pool.grant ref rest leg amount now })
    ⟨hp.1, h.live, h.seen⟩).2
  refine lt_of_le_of_lt hle ?_
  have := hp.2
  have := hg.pos
  simp only [host, potential, callsLeft] at *
  omega

theorem distribute_sound {s : Scripted ω} (h : s.Sound) (hd : s.pool.distributing = false)
    (now : Int) :
    (host.distribute (s.potential + 1) now s).1.Sound ∧
      (host.distribute (s.potential + 1) now s).1.pool.distributing = false ∧
      ((host.distribute (s.potential + 1) now s).2 = false →
        (host.distribute (s.potential + 1) now s).1.pool.Settled) := by
  rcases @Host.distribute_cases _ _ _ host now (s.potential + 1) s
    with ⟨hc | hc, -⟩ | ⟨-, -, s', t, hr, e⟩
  · exact absurd (hc.symm.trans h.live) (by decide)
  · exact absurd (hc.symm.trans hd) (by decide)
  · have hin : Sound (host.setPool s { host.pool s with distributing := true }) :=
      ⟨h.pool.congr rfl rfl rfl rfl, h.live, h.seen⟩
    have hpot : (host.setPool s { host.pool s with distributing := true }).potential <
        s.potential + 1 := Nat.lt_succ_self _
    have hout := Host.rounds_keeps (host_keeps now) (s.potential + 1) hin
    have hset := Host.rounds_settled (host_keeps now) (host_lowers now) (s.potential + 1) hin hpot
    rw [hr] at hout hset
    rw [e]
    exact ⟨⟨hout.pool.congr rfl rfl rfl rfl, hout.live, hout.seen⟩, rfl, hset⟩

/-- A call from outside on a conserved pool ends with one, whatever the
callbacks do; if none throws, a settled pool stays settled. -/
theorem call_sound {s : Scripted ω} (h : s.Sound) (hd : s.pool.distributing = false) (now : Int)
    (c : PoolCall ω) :
    (s.call now c).1.Sound ∧ (s.call now c).1.pool.distributing = false ∧
      (s.pool.Settled → (s.call now c).2 ≠ .callbackThrew → (s.call now c).1.pool.Settled) := by
  unfold call
  split
  · exact ⟨h, hd, fun hs _ => hs⟩
  · next p hc =>
    obtain ⟨f1, f2, f3⟩ := Pool.call_frame hc
    exact ⟨⟨(Pool.conserved_call h.pool hc).1, f1.trans h.live, h.seen⟩, f2.trans hd,
      fun hs _ => f3 rfl hs⟩
  · next p hc =>
    obtain ⟨f1, f2, -⟩ := Pool.call_frame hc
    have hs : Sound { s with pool := p } :=
      ⟨(Pool.conserved_call h.pool hc).1, f1.trans h.live, h.seen⟩
    obtain ⟨k1, k2, k3⟩ := distribute_sound hs (f2.trans hd) now
    simp only
    split
    · next s' he => rw [he] at k1 k2 k3; exact ⟨k1, k2, fun _ _ => k3 rfl⟩
    · next s' he => rw [he] at k1 k2; exact ⟨k1, k2, fun _ hn => absurd rfl hn⟩

theorem run_sound (es : List (Event ω)) : ∀ {p : Pool ω}, p.Conserved → p.closed = false →
    p.distributing = false →
    (∀ q ∈ (run p es).1, q.1.Conserved) ∧ (∀ q ∈ (run p es).2, q.Conserved) ∧
      (p.Settled → (∀ q ∈ (run p es).1, q.2 ≠ .callbackThrew) →
        ∀ q ∈ (run p es).1, q.1.Settled) := by
  induction es with
  | nil => intro p _ _ _; simp [run]
  | cons e es ih =>
    intro p hp hc hd
    obtain ⟨hs, hd', hset⟩ := call_sound (s := ⟨p, e.script, []⟩) ⟨hp, hc, by simp⟩ hd e.now e.call
    obtain ⟨i1, i2, i3⟩ := ih hs.pool hs.live hd'
    simp only [run]
    refine ⟨fun q hq => ?_, fun q hq => ?_, fun h0 hall q hq => ?_⟩
    · rcases List.mem_cons.mp hq with rfl | hq
      · exact hs.pool
      · exact i1 q hq
    · rcases List.mem_append.mp hq with hq | hq
      · exact hs.seen q hq
      · exact i2 q hq
    · have hnow := hset h0 (hall _ List.mem_cons_self)
      rcases List.mem_cons.mp hq with rfl | hq
      · exact hnow
      · exact i3 hnow (fun q hq => hall q (List.mem_cons_of_mem _ hq)) q hq

/-! ### Whose exception it is -/

/-- A callback that does as `b` in this state throws. -/
def Throws (s : Scripted ω) (b : Behaviour ω) : Prop :=
  (nested b.calls s).2 = true ∨ b.throws = true

/-- Some callback of the script throws in a state with a live conserved pool. -/
def SomeThrows (script : List (Behaviour ω)) : Prop :=
  ∃ b ∈ script, ∃ s : Scripted ω, s.Sound ∧ s.Throws b

/-- What `onGrant` leaves of a script, and whose exception it lets out. -/
theorem onGrant_throws {s : Scripted ω} (h : s.Sound) :
    (∀ b ∈ s.onGrant.1.script, b ∈ s.script) ∧ (s.onGrant.2 = true → SomeThrows s.script) := by
  unfold onGrant
  split
  · exact ⟨fun b hb => hb, fun ht => by cases ht⟩
  next b bs hb =>
  have hs : Sound { s with script := bs } := ⟨h.pool, h.live, h.seen⟩
  have hscript := (nested_sound b.calls hs).2.1
  have hmem : b ∈ s.script := hb ▸ List.mem_cons_self
  have hleft : ∀ b' ∈ bs, b' ∈ s.script := fun b' hb' => hb ▸ List.mem_cons_of_mem b hb'
  split
  · next s' he =>
    rw [he] at hscript
    have hscript' : s'.script = bs := hscript
    exact ⟨fun b' hb' => hleft b' (hscript' ▸ hb'), fun _ => ⟨b, hmem, _, hs, .inl (by rw [he])⟩⟩
  · next s' he =>
    rw [he] at hscript
    have hscript' : s'.script = bs := hscript
    exact ⟨fun b' hb' => hleft b' (hscript' ▸ hb'), fun ht => ⟨b, hmem, _, hs, .inr ht⟩⟩

/-- The exception of a callback is one that the script has. -/
theorem call_throws {s : Scripted ω} (h : s.Sound) (now : Int) (c : PoolCall ω)
    (ht : (s.call now c).2 = .callbackThrew) : SomeThrows s.script := by
  by_contra hno
  let P : Scripted ω → Prop := fun s' => s'.Sound ∧ ∀ b ∈ s'.script, b ∈ s.script
  have hgrant : ∀ (s' : Scripted ω) ref rest leg amount, P s' →
      s'.pool.Grantable ref rest leg amount →
      Sound { s' with pool := s'.pool.grant ref rest leg amount now } := by
    intro s' ref rest leg amount hs' hg
    exact ⟨(Pool.conserved_grant hs'.1.pool hg now).1, hs'.1.live, hs'.1.seen⟩
  have hkeeps : host.Keeps P now :=
    ⟨fun s' hs' _ => hs'.1.pool, fun s' ref rest leg amount hs' hg =>
      ⟨(onGrant_sound (hgrant s' ref rest leg amount hs' hg)).1,
        fun b hb => hs'.2 b ((onGrant_throws (hgrant s' ref rest leg amount hs' hg)).1 b hb)⟩⟩
  have hquiet : host.Quiet P now := by
    intro s' ref rest leg amount hs' hg
    refine Bool.eq_false_iff.mpr fun hthrew => hno ?_
    obtain ⟨b, hb, hthrows⟩ := (onGrant_throws (hgrant s' ref rest leg amount hs' hg)).2 hthrew
    exact ⟨b, hs'.2 b hb, hthrows⟩
  unfold call at ht
  split at ht
  · cases ht
  · cases ht
  · next p hc =>
    have hs : Sound { s with pool := p } :=
      ⟨(Pool.conserved_call h.pool hc).1, (Pool.call_frame hc).1.trans h.live, h.seen⟩
    rcases @Host.distribute_cases _ _ _ host now (potential { s with pool := p } + 1)
      { s with pool := p } with ⟨-, e⟩ | ⟨-, -, s', t, hr, e⟩
    · simp only [e] at ht
      cases ht
    · have hin : P (host.setPool { s with pool := p } { p with distributing := true }) :=
        ⟨⟨hs.pool.congr rfl rfl rfl rfl, hs.live, hs.seen⟩, fun b hb => hb⟩
      have hflag := Host.rounds_quiet hkeeps hquiet (potential { s with pool := p } + 1) hin
      obtain rfl : t = false := (congrArg Prod.snd hr).symm.trans hflag
      simp only [e] at ht
      cases ht

/-- Where a call of a run ends with a callback's exception, a callback of its script threw. -/
theorem run_throws (es : List (Event ω)) : ∀ {p : Pool ω}, p.Conserved → p.closed = false →
    p.distributing = false →
    List.Forall₂ (fun e q => q.2 = .callbackThrew → SomeThrows e.script) es (run p es).1 := by
  induction es with
  | nil => exact fun _ _ _ => .nil
  | cons e es ih =>
    intro p hp hc hd
    have hstart : Sound ⟨p, e.script, []⟩ := ⟨hp, hc, by simp⟩
    obtain ⟨hs, hd', -⟩ := call_sound hstart hd e.now e.call
    exact .cons (call_throws hstart e.now e.call) (ih hs.pool hs.live hd')

/-- **Circuit credit is conserved.** After every call of any sequence of calls
on a new pool, and after every call a callback makes in between, the available
credit, the unspent grants and the credit in flight add up to the window, and
`pending` holds exactly the registered legs with an open demand, each once. As
long as no callback threw (`run_throws`), no grantable credit is left over. -/
theorem credit_conserved (es : List (Event ω)) :
    (∀ p ∈ (run (.new : Pool ω) es).1.map Prod.fst ++ (run (.new : Pool ω) es).2,
      p.available + (p.legs.total fun _ leg => leg.granted) + p.inFlight = circuitWindow ∧
      p.pending.Nodup ∧
      ∀ ref, ref ∈ p.pending ↔
        ∃ leg, p.legs.get? ref.owner = some leg ∧ leg.serial = ref.serial ∧ 0 < leg.wanted) ∧
    ∀ n, (∀ q ∈ (run (.new : Pool ω) es).1.take n, q.2 ≠ .callbackThrew) →
      ∀ q ∈ (run (.new : Pool ω) es).1.take n, q.1.available = 0 ∨ q.1.pending = [] := by
  have hnew : (.new : Pool ω).Settled := .inr rfl
  have htake : ∀ n, (run (.new : Pool ω) es).1.take n = (run (.new : Pool ω) (es.take n)).1 := by
    intro n
    generalize (.new : Pool ω) = p
    induction es generalizing p n with
    | nil => simp [run]
    | cons e es ih =>
      cases n with
      | zero => simp [run]
      | succ n => simp only [run, List.take_succ_cons, ih]
  obtain ⟨h1, h2, -⟩ := run_sound es Pool.conserved_new rfl rfl
  refine ⟨fun p hp => ?_, fun n hall => ?_⟩
  · have hc : p.Conserved := by
      rcases List.mem_append.mp hp with hp | hp
      · obtain ⟨q, hq, rfl⟩ := List.mem_map.mp hp
        exact h1 q hq
      · exact h2 p hp
    exact ⟨hc.sum, hc.nodup, hc.mem_pending⟩
  · rw [htake] at hall ⊢
    exact (run_sound (es.take n) Pool.conserved_new rfl rfl).2.2 hnew hall

end Scripted

end HyperDht.Private
